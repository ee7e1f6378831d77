import Mathlib.Tactic

/-! Programs whose effects reach the disk one at a time. A run may be cut between
any two of them. -/

namespace Hugit

/-- The states a run writes, oldest first, and how it ends. -/
structure Trace (σ ε α : Type) where
  states : List σ
  result : Except ε α

def Trace.cut {σ ε α : Type} (t : Trace σ ε α) (writes : Option Nat) : List σ :=
  match writes with
  | none => t.states
  | some n => t.states.take n

theorem getLastD_cut_mem {σ ε α : Type} (t : Trace σ ε α) (writes : Option Nat) (s : σ) :
    (t.cut writes).getLastD s ∈ s :: t.states := by
  cases writes with
  | none => exact List.getLastD_mem_cons
  | some n => exact List.cons_subset_cons s (List.take_subset n _) List.getLastD_mem_cons

structure Durable (σ ε α : Type) where
  run : σ → Trace σ ε α

namespace Durable

variable {σ ε α β : Type}

def ret (a : α) : Durable σ ε α :=
  ⟨fun _ => ⟨[], .ok a⟩⟩

def fail (e : ε) : Durable σ ε α :=
  ⟨fun _ => ⟨[], .error e⟩⟩

def read (f : σ → α) : Durable σ ε α :=
  ⟨fun s => ⟨[], .ok (f s)⟩⟩

def write (f : σ → σ) : Durable σ ε Unit :=
  ⟨fun s => ⟨[f s], .ok ()⟩⟩

def ofExcept : Except ε α → Durable σ ε α
  | .ok a => ret a
  | .error e => fail e

def bind (p : Durable σ ε α) (f : α → Durable σ ε β) : Durable σ ε β :=
  ⟨fun s =>
    match (p.run s).result with
    | .error e => ⟨(p.run s).states, .error e⟩
    | .ok a =>
      let t := (f a).run ((p.run s).states.getLastD s)
      ⟨(p.run s).states ++ t.states, t.result⟩⟩

instance : Monad (Durable σ ε) where
  pure := ret
  bind := bind

variable {p : Durable σ ε α} {f : α → Durable σ ε β} {s t : σ}

theorem run_pure (a : α) (s : σ) : (pure a : Durable σ ε α).run s = ⟨[], .ok a⟩ := rfl

theorem run_read_bind (g : σ → α) (f : α → Durable σ ε β) (s : σ) : (read g >>= f).run s = (f (g s)).run s := rfl

theorem run_ok_bind (a : α) (f : α → Durable σ ε β) (s : σ) :
    (ofExcept (.ok a) >>= f).run s = (f a).run s := rfl

theorem run_write_bind (g : σ → σ) (f : Unit → Durable σ ε β) (s : σ) :
    (write g >>= f).run s = ⟨g s :: ((f ()).run (g s)).states, ((f ()).run (g s)).result⟩ := rfl

theorem run_bind_of_quiet {a : α} (h : p.run s = ⟨[], .ok a⟩) : (p >>= f).run s = (f a).run s := by
  change (bind p f).run s = _
  simp only [bind, h]
  rfl

theorem run_bind_of_wrote {a : α} (h : p.run s = ⟨[t], .ok a⟩) :
    (p >>= f).run s = ⟨t :: ((f a).run t).states, ((f a).run t).result⟩ := by
  change (bind p f).run s = _
  simp only [bind, h]
  rfl

theorem run_bind_of_failed {e : ε} (h : p.run s = ⟨[], .error e⟩) : (p >>= f).run s = ⟨[], .error e⟩ := by
  change (bind p f).run s = _
  simp only [bind, h]

end Durable

end Hugit
