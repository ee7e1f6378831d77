import Hugit.DeltaSizes
import Mathlib.Data.List.ReduceOption
import Mathlib.Data.Nat.Bitwise

/-! What a delta means: a program of copies and literals after two sizes, and when
the interpreter computes exactly that. -/

namespace Hugit

inductive DeltaOp where
  | copy (offset size : Nat)
  | insert (literal : Bytes)
  deriving DecidableEq

def DeltaOp.run (base : Bytes) : DeltaOp → Option Bytes
  | copy offset size => if offset + size ≤ base.length then some ((base.drop offset).take size) else none
  | insert literal => some literal

def execute (base : Bytes) : List DeltaOp → Option Bytes
  | [] => some []
  | op :: ops => do
    let produced ← op.run base
    let rest ← execute base ops
    return produced ++ rest

def operandValue : List (Option UInt8) → Nat
  | [] => 0
  | b :: rest => b.elim 0 UInt8.toNat + 256 * operandValue rest

def Announced (cmd : UInt8) (first n : Nat) (operands : List (Option UInt8)) : Prop :=
  operands.map Option.isSome = (List.range n).map fun i => cmd.toNat.testBit (first + i)

/-- The encoding of one instruction. The command 0 is none. -/
inductive Instruction : Bytes → DeltaOp → Prop
  | insert (literal : Bytes) (pos : 0 < literal.length) (short : literal.length < 128) :
      Instruction (UInt8.ofNat literal.length :: literal) (.insert literal)
  | copy (cmd : UInt8) (high : 128 ≤ cmd.toNat) (offset size : List (Option UInt8))
      (offsets : Announced cmd 0 4 offset) (sizes : Announced cmd 4 3 size) :
      Instruction (cmd :: (offset.reduceOption ++ size.reduceOption))
        (.copy (operandValue offset) (if operandValue size = 0 then 0x10000 else operandValue size))

inductive Program : Bytes → List DeltaOp → Prop
  | nil : Program [] []
  | cons {code rest : Bytes} {op : DeltaOp} {ops : List DeltaOp} (first : Instruction code op)
      (others : Program rest ops) : Program (code ++ rest) (op :: ops)

theorem Instruction.ne_nil {code : Bytes} {op : DeltaOp} (h : Instruction code op) : code ≠ [] := by
  cases h <;> simp

variable {ops : List DeltaOp}

theorem Program.of_nil (h : Program [] ops) : ops = [] := by
  generalize hcmds : ([] : Bytes) = cmds at h
  cases h with
  | nil => rfl
  | cons hins _ => exact absurd (List.append_eq_nil_iff.mp hcmds.symm).1 hins.ne_nil

variable {cmd : UInt8}

theorem Program.cons_inv {cmds : Bytes} (h : Program (cmd :: cmds) ops) :
    ∃ code rest op ops', cmd :: cmds = code ++ rest ∧ ops = op :: ops' ∧ Instruction code op ∧
      Program rest ops' := by
  generalize hcmds : cmd :: cmds = all at h
  cases h with
  | nil => cases hcmds
  | @cons code rest op ops hins hprog => exact ⟨code, rest, op, ops, rfl, rfl, hins, hprog⟩

theorem operandValue_lt (operands : List (Option UInt8)) : operandValue operands < 256 ^ operands.length := by
  induction operands with
  | nil => exact Nat.one_pos
  | cons b rest ih =>
    have hb : b.elim 0 UInt8.toNat < 256 := by
      cases b with
      | none => exact Nat.zero_lt_succ _
      | some b => exact b.toNat_lt
    rw [operandValue, List.length_cons, Nat.pow_succ]
    omega

/-! One command. -/

theorem and_shifted_eq_zero (n bit : Nat) : n &&& 1 <<< bit = 0 ↔ n.testBit bit = false := by
  rw [Nat.one_shiftLeft, Nat.and_two_pow]
  cases n.testBit bit <;> simp

section

variable {detail : String} {cmd : UInt8} {bit shift : Nat}

theorem readOperand_skip (h : cmd.toNat.testBit bit = false) (fields : List (Nat × Nat)) (value : Nat)
    (rest : Bytes) : readOperand detail cmd ((bit, shift) :: fields) value rest =
      readOperand detail cmd fields value rest := by
  rw [readOperand.eq_def]
  exact if_pos ((and_shifted_eq_zero _ _).mpr h)

theorem readOperand_byte (h : cmd.toNat.testBit bit = true) (fields : List (Nat × Nat)) (value : Nat)
    (x : UInt8) (rest : Bytes) : readOperand detail cmd ((bit, shift) :: fields) value (x :: rest) =
      readOperand detail cmd fields (value ||| x.toNat <<< shift) rest := by
  rw [readOperand.eq_def]
  exact if_neg (by rw [and_shifted_eq_zero, h]; decide)

theorem readOperand_truncated (h : cmd.toNat.testBit bit = true) (fields : List (Nat × Nat)) (value : Nat) :
    readOperand detail cmd ((bit, shift) :: fields) value [] = .error (.malformedPack detail) := by
  rw [readOperand.eq_def]
  exact if_neg (by rw [and_shifted_eq_zero, h]; decide)

end

variable {rest rest' : Bytes}

theorem readOperand_eq_ok {detail : String} {first i n value v : Nat} (hv : value < 2 ^ (8 * i)) :
    readOperand detail cmd ((List.range' i n).map fun j => (first + j, 8 * j)) value rest = .ok (v, rest') ↔
      ∃ operands : List (Option UInt8),
        operands.map Option.isSome = (List.range' i n).map (fun j => cmd.toNat.testBit (first + j)) ∧
        rest = operands.reduceOption ++ rest' ∧ v = value + 2 ^ (8 * i) * operandValue operands := by
  induction n generalizing i value rest with
  | zero =>
    rw [List.range'_zero, List.map_nil, List.map_nil, readOperand, Except.ok.injEq, Prod.mk.injEq]
    constructor
    · rintro ⟨rfl, rfl⟩
      exact ⟨[], rfl, rfl, rfl⟩
    · rintro ⟨operands, hnone, rfl, rfl⟩
      obtain rfl := List.map_eq_nil_iff.mp hnone
      exact ⟨rfl, rfl⟩
  | succ n ih =>
    have hpow : 2 ^ (8 * (i + 1)) = 2 ^ (8 * i) * 256 := by rw [Nat.mul_add, Nat.pow_add]
    simp only [List.range'_succ, List.map_cons]
    cases hbit : cmd.toNat.testBit (first + i) with
    | false =>
      rw [readOperand_skip hbit, ih (by omega)]
      constructor
      · rintro ⟨operands, hsome, hrest, hval⟩
        refine ⟨none :: operands, by simp [hsome], by simpa using hrest, ?_⟩
        rw [hval, operandValue, hpow, Option.elim_none, Nat.zero_add, Nat.mul_assoc]
      · rintro ⟨operands, hsome, hrest, hval⟩
        obtain ⟨b, operands, rfl, hb, hsome'⟩ := List.map_eq_cons_iff.mp hsome
        obtain rfl : b = none := by simpa using hb
        refine ⟨operands, hsome', by simpa using hrest, ?_⟩
        rw [hval, operandValue, hpow, Option.elim_none, Nat.zero_add, Nat.mul_assoc]
    | true =>
      cases rest with
      | nil =>
        rw [readOperand_truncated hbit]
        constructor
        · intro h
          cases h
        · rintro ⟨operands, hsome, hrest, -⟩
          obtain ⟨b, operands, rfl, hb, -⟩ := List.map_eq_cons_iff.mp hsome
          obtain ⟨x, rfl⟩ := Option.isSome_iff_exists.mp hb
          simp at hrest
      | cons x rest =>
        have hor : value ||| x.toNat <<< (8 * i) = value + x.toNat * 2 ^ (8 * i) := by
          rw [Nat.or_comm, Nat.shiftLeft_eq, Nat.mul_comm, ← Nat.two_pow_add_eq_or_of_lt hv]
          omega
        have hx := x.toNat_lt
        have hnext : value + x.toNat * 2 ^ (8 * i) < 2 ^ (8 * (i + 1)) := by
          have hle := Nat.mul_le_mul_right (2 ^ (8 * i)) (show x.toNat + 1 ≤ 256 by omega)
          rw [Nat.add_mul] at hle
          omega
        have hval (operands : List (Option UInt8)) :
            value + x.toNat * 2 ^ (8 * i) + 2 ^ (8 * (i + 1)) * operandValue operands =
              value + 2 ^ (8 * i) * operandValue (some x :: operands) := by
          rw [operandValue, hpow, Option.elim_some]
          ring
        rw [readOperand_byte hbit, hor, ih hnext]
        constructor
        · rintro ⟨operands, hsome, rfl, rfl⟩
          exact ⟨some x :: operands, by simp [hsome], by simp, hval operands⟩
        · rintro ⟨operands, hsome, hrest, rfl⟩
          obtain ⟨b, operands, rfl, hb, hsome'⟩ := List.map_eq_cons_iff.mp hsome
          obtain ⟨y, rfl⟩ := Option.isSome_iff_exists.mp hb
          rw [List.reduceOption_cons_of_some, List.cons_append, List.cons.injEq] at hrest
          obtain ⟨rfl, rfl⟩ := hrest
          exact ⟨operands, hsome', rfl, (hval operands).symm⟩

theorem readOperand_zero_eq_ok {detail : String} {cmd : UInt8} {first n v : Nat} {rest rest' : Bytes} :
    readOperand detail cmd ((List.range' 0 n).map fun j => (first + j, 8 * j)) 0 rest = .ok (v, rest') ↔
      ∃ operands, Announced cmd first n operands ∧ rest = operands.reduceOption ++ rest' ∧
        v = operandValue operands := by
  refine (readOperand_eq_ok Nat.one_pos).trans (exists_congr fun operands => ?_)
  rw [Nat.mul_zero, Nat.pow_zero, Nat.one_mul, Nat.zero_add, Announced, List.range_eq_range']

theorem readOffset_eq_ok {v : Nat} :
    readOperand "truncated copy offset" cmd [(0, 0), (1, 8), (2, 16), (3, 24)] 0 rest = .ok (v, rest') ↔
      ∃ operands, Announced cmd 0 4 operands ∧ rest = operands.reduceOption ++ rest' ∧
        v = operandValue operands :=
  @readOperand_zero_eq_ok _ cmd 0 4 v rest rest'

theorem readSize_eq_ok {v : Nat} :
    readOperand "truncated copy size" cmd [(4, 0), (5, 8), (6, 16)] 0 rest = .ok (v, rest') ↔
      ∃ operands, Announced cmd 4 3 operands ∧ rest = operands.reduceOption ++ rest' ∧
        v = operandValue operands :=
  @readOperand_zero_eq_ok _ cmd 4 3 v rest rest'

variable {base : Bytes}

theorem deltaCommand_eq_ok {rest rest' produced : Bytes} :
    deltaCommand base cmd rest = .ok (produced, rest') ↔
      ∃ code op, cmd :: rest = code ++ rest' ∧ Instruction code op ∧ op.run base = some produced := by
  have hbyte := cmd.toNat_lt
  unfold deltaCommand
  by_cases hcmd : cmd.toNat < 128
  · rw [if_neg (not_not.mpr ((and_continuation hbyte).mpr hcmd))]
    by_cases hzero : cmd = 0
    · rw [if_neg (not_not.mpr hzero)]
      constructor
      · intro h
        cases h
      · rintro ⟨code, op, hsplit, hins, -⟩
        cases hins with
        | insert literal pos short =>
          obtain ⟨hlen, -⟩ := List.cons.inj hsplit
          have hnat := congrArg UInt8.toNat (hlen.symm.trans hzero)
          rw [UInt8.toNat_ofNat', Nat.mod_eq_of_lt (by omega)] at hnat
          exact absurd hnat pos.ne'
        | copy cmd' high =>
          obtain ⟨rfl, -⟩ := List.cons.inj hsplit
          omega
    · rw [if_pos hzero]
      constructor
      · intro h
        obtain ⟨hlen, h⟩ := ite_error_eq_ok.mp h
        obtain ⟨rfl, rfl⟩ := Prod.mk.inj (Except.ok.inj h)
        have htake : (rest.take cmd.toNat).length = cmd.toNat := List.length_take_of_le (Nat.not_lt.mp hlen)
        have hpos : cmd.toNat ≠ 0 := fun h0 => hzero (UInt8.toNat_inj.mp h0)
        refine ⟨cmd :: rest.take cmd.toNat, .insert (rest.take cmd.toNat), by simp, ?_, rfl⟩
        have hcode : UInt8.ofNat (rest.take cmd.toNat).length = cmd := by
          rw [htake, UInt8.ofNat_toNat]
        have hins := Instruction.insert (rest.take cmd.toNat) (by omega) (by omega)
        rwa [hcode] at hins
      · rintro ⟨code, op, hsplit, hins, hrun⟩
        cases hins with
        | insert literal pos short =>
          obtain ⟨hlen, rfl⟩ := List.cons.inj hsplit
          obtain rfl := Option.some.inj hrun
          have hnat : cmd.toNat = literal.length := by
            rw [hlen, UInt8.toNat_ofNat', Nat.mod_eq_of_lt (by omega)]
          rw [hnat, if_neg (by simp)]
          simp
        | copy cmd' high =>
          obtain ⟨rfl, -⟩ := List.cons.inj hsplit
          omega
  · rw [if_pos fun hz => hcmd ((and_continuation hbyte).mp hz)]
    simp only [bind_eq_ok, pure_eq_ok, refuseIf_eq_ok]
    constructor
    · rintro ⟨⟨offset, rest₁⟩, hoffset, ⟨size, rest₂⟩, hsize, _, hfit, heq⟩
      obtain ⟨os, ho, rfl, rfl⟩ := readOffset_eq_ok.mp hoffset
      obtain ⟨ss, hs, rfl, rfl⟩ := readSize_eq_ok.mp hsize
      obtain ⟨rfl, rfl⟩ := Prod.mk.inj heq
      refine ⟨_, _, ?_, .copy cmd (Nat.not_lt.mp hcmd) os ss ho hs, ?_⟩
      · simp
      · exact if_pos (Nat.not_lt.mp hfit)
    · rintro ⟨code, op, hsplit, hins, hrun⟩
      cases hins with
      | insert literal pos short =>
        obtain ⟨hlen, -⟩ := List.cons.inj hsplit
        rw [hlen, UInt8.toNat_ofNat', Nat.mod_eq_of_lt (by omega)] at hcmd
        omega
      | copy cmd' high os ss ho hs =>
        obtain ⟨rfl, rfl⟩ := List.cons.inj hsplit
        rw [DeltaOp.run] at hrun
        have hfit : operandValue os + (if operandValue ss = 0 then 0x10000 else operandValue ss) ≤ base.length := by
          by_contra hno
          rw [if_neg hno] at hrun
          cases hrun
        rw [if_pos hfit] at hrun
        refine ⟨(_, ss.reduceOption ++ rest'), readOffset_eq_ok.mpr ⟨os, ho, by simp, rfl⟩,
          (_, rest'), readSize_eq_ok.mpr ⟨ss, hs, rfl, rfl⟩, (), Nat.not_lt.mpr hfit, ?_⟩
        exact congrArg (·, rest') (Option.some.inj hrun)

theorem runDelta_nil {targetSize fuel : Nat} {out result : Bytes} :
    runDelta base targetSize fuel [] out = .ok result ↔
      ∃ ops produced, Program [] ops ∧ execute base ops = some produced ∧ result = out ++ produced ∧
        result.length = targetSize := by
  rw [runDelta, ite_error_eq_ok, not_not, Except.ok.injEq]
  constructor
  · rintro ⟨hlen, rfl⟩
    exact ⟨[], [], .nil, rfl, by simp, hlen⟩
  · rintro ⟨ops, produced, hprog, hexec, rfl, hlen⟩
    obtain rfl := hprog.of_nil
    obtain rfl := Option.some.inj hexec
    exact ⟨by simpa using hlen, by simp⟩

theorem runDelta_eq_ok {targetSize fuel : Nat} {cmds out result : Bytes} (hfuel : cmds.length ≤ fuel) :
    runDelta base targetSize fuel cmds out = .ok result ↔
      ∃ ops produced, Program cmds ops ∧ execute base ops = some produced ∧ result = out ++ produced ∧
        result.length = targetSize := by
  induction fuel generalizing cmds out with
  | zero =>
    obtain rfl := List.eq_nil_of_length_eq_zero (Nat.le_zero.mp hfuel)
    exact runDelta_nil
  | succ fuel ih =>
    cases cmds with
    | nil => exact runDelta_nil
    | cons cmd rest =>
      simp only [runDelta, bind_eq_ok, refuseIf_eq_ok]
      constructor
      · rintro ⟨⟨produced, rest'⟩, hstep, _, -, hrun⟩
        obtain ⟨code, op, hsplit, hins, hop⟩ := deltaCommand_eq_ok.mp hstep
        have hlen := congrArg List.length hsplit
        have hcode := List.length_pos_iff.mpr hins.ne_nil
        simp only [List.length_append, List.length_cons] at hlen hfuel
        obtain ⟨ops, more, hprog, hexec, rfl, hresult⟩ := (ih (by dsimp only; omega)).mp hrun
        refine ⟨op :: ops, produced ++ more, hsplit ▸ .cons hins hprog, ?_, by simp, hresult⟩
        simp [execute, hop, hexec]
      · rintro ⟨ops, produced, hprog, hexec, rfl, hresult⟩
        obtain ⟨code, rest', op, ops, hsplit, rfl, hins, hprog⟩ := hprog.cons_inv
        obtain ⟨first, hop, hexec⟩ := Option.bind_eq_some_iff.mp hexec
        obtain ⟨more, hmore, heq⟩ := Option.bind_eq_some_iff.mp hexec
        obtain rfl := Option.some.inj heq
        have hlen := congrArg List.length hsplit
        have hcode := List.length_pos_iff.mpr hins.ne_nil
        simp only [List.length_append, List.length_cons] at hlen hfuel hresult
        refine ⟨(first, rest'), deltaCommand_eq_ok.mpr ⟨code, op, hsplit, hins, hop⟩, (), ?_, ?_⟩
        · dsimp only
          rw [List.length_append]
          omega
        · refine (ih (by dsimp only; omega)).mpr ⟨ops, more, hprog, hmore, by simp, ?_⟩
          simp only [List.length_append]
          omega

def DeltaHeader (delta : Bytes) (baseSize n targetSize k : Nat) : Prop :=
  base128 delta = some (baseSize, n) ∧ base128 (delta.drop n) = some (targetSize, k)

structure ValidDelta (base : Bytes) (baseSize targetSize : Nat) (cmds : Bytes) (maxInflated : Nat)
    (out : Bytes) : Prop where
  baseSize : base.length = baseSize
  limit : targetSize ≤ maxInflated
  length : out.length = targetSize
  program : ∃ ops, Program cmds ops ∧ execute base ops = some out

theorem applyDelta_eq_ok {base delta out : Bytes} {maxInflated : Nat} :
    applyDelta base delta maxInflated = .ok out ↔
      ∃ s n t k, DeltaHeader delta s n t k ∧ n ≤ 10 ∧ k ≤ 10 ∧
        ValidDelta base (s % 2 ^ 64) (t % 2 ^ 64) (delta.drop (n + k)) maxInflated out := by
  simp only [applyDelta, bind_eq_ok, refuseIf_eq_ok]
  have hlen (i : Nat) : (delta.drop i).length ≤ delta.length := by simp
  constructor
  · rintro ⟨⟨s, n⟩, hs, _, hbase, ⟨t, k⟩, ht, _, hmax, hrun⟩
    obtain ⟨s, hs', hn, rfl⟩ := decodeDeltaSize_eq_ok.mp hs
    obtain ⟨t, ht', hk, rfl⟩ := decodeDeltaSize_eq_ok.mp ht
    obtain ⟨ops, produced, hprog, hexec, rfl, hout⟩ := (runDelta_eq_ok (hlen _)).mp hrun
    exact ⟨s, n, t, k, ⟨hs', ht'⟩, hn, hk, (not_not.mp hbase).symm, Nat.not_lt.mp hmax, hout, ops, hprog, hexec⟩
  · rintro ⟨s, n, t, k, ⟨hs, ht⟩, hn, hk, hbase, hmax, hout, ops, hprog, hexec⟩
    refine ⟨(s % 2 ^ 64, n), decodeDeltaSize_eq_ok.mpr ⟨s, hs, hn, rfl⟩, (), not_not.mpr hbase.symm,
      (t % 2 ^ 64, k), decodeDeltaSize_eq_ok.mpr ⟨t, ht, hk, rfl⟩, (), Nat.not_lt.mpr hmax, ?_⟩
    exact (runDelta_eq_ok (hlen _)).mpr ⟨ops, out, hprog, hexec, rfl, hout⟩

/-- What comes out is what the delta's program makes of the base, with the sizes
that the delta declares. -/
def AppliesCorrectly (base delta : Bytes) (maxInflated : Nat) : Prop :=
  ∀ out, applyDelta base delta maxInflated = .ok out →
    ∃ s n t k, DeltaHeader delta s n t k ∧ ValidDelta base s t (delta.drop (n + k)) maxInflated out

/-- No declared size of more than 64 bits has a low word with which the delta
would be valid. -/
def NoWrappedSize (base delta : Bytes) (maxInflated : Nat) : Prop :=
  ∀ s n t k, DeltaHeader delta s n t k → n ≤ 10 → k ≤ 10 → 2 ^ 64 ≤ s ∨ 2 ^ 64 ≤ t →
    ¬ ∃ out, ValidDelta base (s % 2 ^ 64) (t % 2 ^ 64) (delta.drop (n + k)) maxInflated out

theorem DeltaHeader.unique {delta : Bytes} {s n t k s' n' t' k' : Nat} (h : DeltaHeader delta s n t k)
    (h' : DeltaHeader delta s' n' t' k') : s = s' ∧ n = n' ∧ t = t' ∧ k = k' := by
  obtain ⟨hs, ht⟩ := h
  obtain ⟨hs', ht'⟩ := h'
  rw [hs, Option.some.injEq, Prod.mk.injEq] at hs'
  obtain ⟨rfl, rfl⟩ := hs'
  rw [ht, Option.some.injEq, Prod.mk.injEq] at ht'
  exact ⟨rfl, rfl, ht'.1, ht'.2⟩

theorem Program.copy_lt {cmds : Bytes} (h : Program cmds ops) {offset size : Nat} (hop : .copy offset size ∈ ops) :
    offset + size < 2 ^ 64 := by
  induction h with
  | nil => cases hop
  | cons first _ ih =>
    rcases List.mem_cons.mp hop with hop | hop
    · cases first with
      | insert => cases hop
      | copy cmd high os ss ho hs =>
        obtain ⟨rfl, rfl⟩ := DeltaOp.copy.inj hop
        have hlo := congrArg List.length ho
        have hls := congrArg List.length hs
        simp only [List.length_map, List.length_range] at hlo hls
        have hbo := operandValue_lt os
        have hbs := operandValue_lt ss
        rw [hlo] at hbo
        rw [hls] at hbs
        split_ifs <;> omega
    · exact ih hop

/-- A delta is applied as its program says, or refused, exactly when no wrapped
size lets it through. Every valid delta with sizes of at most ten bytes is
applied, and no copy reaches the end of the word. -/
theorem applyDelta_correct_iff (base delta : Bytes) (maxInflated : Nat) :
    (AppliesCorrectly base delta maxInflated ↔ NoWrappedSize base delta maxInflated) ∧
    (∀ s n t k out, DeltaHeader delta s n t k → n ≤ 10 → k ≤ 10 → s < 2 ^ 64 → t < 2 ^ 64 →
      ValidDelta base s t (delta.drop (n + k)) maxInflated out → applyDelta base delta maxInflated = .ok out) ∧
    ∀ cmds ops offset size, Program cmds ops → .copy offset size ∈ ops → offset + size < 2 ^ 64 := by
  refine ⟨⟨?_, ?_⟩, ?_, fun _ _ _ _ hprog hop => hprog.copy_lt hop⟩
  · rintro h s n t k hhead hn hk hlarge ⟨out, hvalid⟩
    obtain ⟨s', n', t', k', hhead', hvalid'⟩ := h out (applyDelta_eq_ok.mpr ⟨s, n, t, k, hhead, hn, hk, hvalid⟩)
    obtain ⟨rfl, rfl, rfl, rfl⟩ := hhead.unique hhead'
    have hs := hvalid.baseSize.symm.trans hvalid'.baseSize
    have ht := hvalid.length.symm.trans hvalid'.length
    have hs64 := Nat.mod_lt s (Nat.two_pow_pos 64)
    have ht64 := Nat.mod_lt t (Nat.two_pow_pos 64)
    omega
  · intro h out hok
    obtain ⟨s, n, t, k, hhead, hn, hk, hvalid⟩ := applyDelta_eq_ok.mp hok
    have hfit : s < 2 ^ 64 ∧ t < 2 ^ 64 := by
      by_contra hno
      exact h s n t k hhead hn hk (by omega) ⟨out, hvalid⟩
    rw [Nat.mod_eq_of_lt hfit.1, Nat.mod_eq_of_lt hfit.2] at hvalid
    exact ⟨s, n, t, k, hhead, hvalid⟩
  · intro s n t k out hhead hn hk hs ht hvalid
    refine applyDelta_eq_ok.mpr ⟨s, n, t, k, hhead, hn, hk, ?_⟩
    rwa [Nat.mod_eq_of_lt hs, Nat.mod_eq_of_lt ht]

/-- A copy of two bytes and a literal of two. -/
theorem plain_delta_applied :
    AppliesCorrectly [10, 11, 12] [3, 4, 0x91, 1, 2, 2, 7, 8] 100 ∧
      applyDelta [10, 11, 12] [3, 4, 0x91, 1, 2, 2, 7, 8] 100 = .ok [11, 12, 7, 8] := by
  refine ⟨(applyDelta_correct_iff _ _ _).1.mpr ?_, by decide +kernel⟩
  intro s n t k hhead _ _ hlarge
  have hplain : DeltaHeader [3, 4, 0x91, 1, 2, 2, 7, 8] 3 1 4 1 := ⟨by decide, by decide⟩
  obtain ⟨rfl, -, rfl, -⟩ := hhead.unique hplain
  omega

/-- A delta for a base of 2 ^ 64 bytes is applied to the empty one. -/
theorem wrapped_base_size_applied :
    base128 [128, 128, 128, 128, 128, 128, 128, 128, 128, 2, 0] = some (2 ^ 64, 10) ∧
      applyDelta [] [128, 128, 128, 128, 128, 128, 128, 128, 128, 2, 0] 0 = .ok [] ∧
      ¬ AppliesCorrectly [] [128, 128, 128, 128, 128, 128, 128, 128, 128, 2, 0] 0 := by
  have hvalue : base128 [128, 128, 128, 128, 128, 128, 128, 128, 128, 2, 0] = some (2 ^ 64, 10) := by
    decide +kernel
  have hok : applyDelta [] [128, 128, 128, 128, 128, 128, 128, 128, 128, 2, 0] 0 = .ok [] := by
    decide +kernel
  refine ⟨hvalue, hok, fun h => ?_⟩
  obtain ⟨s, n, t, k, hhead, hvalid⟩ := h [] hok
  have hs := hhead.1.symm.trans hvalue
  rw [Option.some.injEq, Prod.mk.injEq] at hs
  have hbase := hvalid.baseSize
  rw [hs.1, List.length_nil] at hbase
  omega

end Hugit
