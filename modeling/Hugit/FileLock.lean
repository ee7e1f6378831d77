import Hugit.Interleaving

/-! The legacy lock on a log file: a sidecar that is created only where none is.
A sidecar of some age is taken for abandoned, removed and created again, and
each of these is a step of its own. -/

namespace Hugit

def staleLockSecs : Nat := 120

def nanosPerSec : Nat := 10 ^ 9

/-- A lock file. `owner` is a history variable: the acquisition that created it. -/
structure LockFile where
  owner : Nat
  mtime : Nat
  deriving DecidableEq

structure LockDir where
  now : Nat
  file : Option LockFile

def LockDir.empty : LockDir := ⟨0, none⟩

def elapsed (now mtime : Nat) : Option Nat :=
  if mtime ≤ now then some (now - mtime) else none

def LockFile.isStale (f : LockFile) (now : Nat) : Bool :=
  (elapsed now f.mtime).any fun age => staleLockSecs ≤ age / nanosPerSec

def lockIsStale (dir : LockDir) : Bool :=
  dir.file.any (·.isStale dir.now)

inductive LockError where
  | busy
  | io (action : String)
  deriving DecidableEq

inductive LockPhase where
  | entered
  | exists
  | foundStale (f : LockFile)
  | removed
  | holding (f : LockFile)
  | refused (e : LockError)
  | dropped
  | crashed
  deriving DecidableEq

structure Acquirer where
  allowLegacyTakeover : Bool
  phase : LockPhase
  deriving DecidableEq

namespace LockDir

def nextFile (dir : LockDir) (i : Nat) : LockFile :=
  ⟨i, dir.now⟩

def tryCreate (dir : LockDir) (i : Nat) : LockDir :=
  { dir with file := some (dir.nextFile i) }

def removeFile (dir : LockDir) : LockDir :=
  { dir with file := none }

end LockDir

/-- One step of acquisition `i`. Every file operation may fail, a create also
after the file is there, and a process may crash between any two steps. -/
inductive LockStep (i : Nat) : LockDir → Acquirer → LockDir → Acquirer → Prop
  | create (dir : LockDir) (allow : Bool) (h : dir.file = none) :
      LockStep i dir ⟨allow, .entered⟩ (dir.tryCreate i) ⟨allow, .holding (dir.nextFile i)⟩
  | found (dir : LockDir) (allow : Bool) (h : dir.file.isSome) :
      LockStep i dir ⟨allow, .entered⟩ dir ⟨allow, .exists⟩
  | createFails (dir : LockDir) (allow : Bool) :
      LockStep i dir ⟨allow, .entered⟩ dir ⟨allow, .refused (.io "create lock")⟩
  | stampFails (dir : LockDir) (allow : Bool) (h : dir.file = none) :
      LockStep i dir ⟨allow, .entered⟩ (dir.tryCreate i) ⟨allow, .refused (.io "create lock")⟩
  | busy (dir : LockDir) (allow : Bool) (h : (allow && lockIsStale dir) = false) :
      LockStep i dir ⟨allow, .exists⟩ dir ⟨allow, .refused .busy⟩
  | metadataFails (dir : LockDir) (allow : Bool) :
      LockStep i dir ⟨allow, .exists⟩ dir ⟨allow, .refused .busy⟩
  | stale (dir : LockDir) {f : LockFile} (hf : dir.file = some f) (h : lockIsStale dir = true) :
      LockStep i dir ⟨true, .exists⟩ dir ⟨true, .foundStale f⟩
  | remove (dir : LockDir) (allow : Bool) (f : LockFile) :
      LockStep i dir ⟨allow, .foundStale f⟩ dir.removeFile ⟨allow, .removed⟩
  | removeFails (dir : LockDir) (allow : Bool) (f : LockFile) :
      LockStep i dir ⟨allow, .foundStale f⟩ dir ⟨allow, .removed⟩
  | recreate (dir : LockDir) (allow : Bool) (h : dir.file = none) :
      LockStep i dir ⟨allow, .removed⟩ (dir.tryCreate i) ⟨allow, .holding (dir.nextFile i)⟩
  | recreateBusy (dir : LockDir) (allow : Bool) (h : dir.file.isSome) :
      LockStep i dir ⟨allow, .removed⟩ dir ⟨allow, .refused .busy⟩
  | recreateFails (dir : LockDir) (allow : Bool) :
      LockStep i dir ⟨allow, .removed⟩ dir ⟨allow, .refused (.io "re-create lock after stale takeover")⟩
  | restampFails (dir : LockDir) (allow : Bool) (h : dir.file = none) :
      LockStep i dir ⟨allow, .removed⟩ (dir.tryCreate i)
        ⟨allow, .refused (.io "re-create lock after stale takeover")⟩
  | drop (dir : LockDir) (allow : Bool) (f : LockFile) :
      LockStep i dir ⟨allow, .holding f⟩ dir.removeFile ⟨allow, .dropped⟩
  | dropFails (dir : LockDir) (allow : Bool) (f : LockFile) :
      LockStep i dir ⟨allow, .holding f⟩ dir ⟨allow, .dropped⟩
  | crash (dir : LockDir) (a : Acquirer) : LockStep i dir a dir { a with phase := .crashed }

inductive LockTick : LockDir → LockDir → Prop
  | tick (dir : LockDir) (nanos : Nat) : LockTick dir { dir with now := dir.now + nanos }

def IsAcquiring (a : Acquirer) : Prop :=
  a.phase = .entered

abbrev LockSystem := System LockDir Acquirer

namespace LockSystem

/-- Acquisition `i` holds the lock it took by creating `f`. -/
def Holds (s : LockSystem) (i : Nat) (f : LockFile) : Prop :=
  ∃ allow, s.threads[i]? = some ⟨allow, .holding f⟩

def Timely (s : LockSystem) : Prop :=
  ∀ i f, Holds s i f → s.shared.now < f.mtime + staleLockSecs * nanosPerSec

end LockSystem

/-- A sidecar is taken away by a takeover only while it is the one that was found
stale. -/
def TakesStale (dir : LockDir) (a a' : Acquirer) : Prop :=
  ∀ f, a.phase = .foundStale f → a'.phase = .removed → ∀ g, dir.file = some g → g = f

def TimelyLockStep (act : Nat → LockDir → Acquirer → LockDir → Acquirer → Prop) (s s' : LockSystem) : Prop :=
  System.Step IsAcquiring LockTick act s s' ∧ LockSystem.Timely s'

abbrev LockRun : LockSystem → Prop :=
  Relation.ReflTransGen (TimelyLockStep LockStep) ⟨.empty, []⟩

abbrev CarefulLockRun : LockSystem → Prop :=
  Relation.ReflTransGen (TimelyLockStep fun i dir a dir' a' => LockStep i dir a dir' a' ∧ TakesStale dir a a')
    ⟨.empty, []⟩

theorem LockFile.isStale_iff {f : LockFile} {now : Nat} :
    f.isStale now = true ↔ f.mtime + staleLockSecs * nanosPerSec ≤ now := by
  rw [isStale, elapsed]
  split_ifs with h
  · simp only [Option.any_some, decide_eq_true_eq, Nat.le_div_iff_mul_le (show 0 < nanosPerSec by decide)]
    omega
  · have hpos : 0 < staleLockSecs * nanosPerSec := by decide
    simp only [Option.any_none, Bool.false_eq_true, false_iff]
    omega

section Steps

variable {i : Nat} {dir dir' : LockDir} {a a' : Acquirer} {f : LockFile}

theorem LockStep.file_cases (h : LockStep i dir a dir' a') : dir'.now = dir.now ∧
    (dir'.file = dir.file ∨ dir.file = none ∨
      ((∃ f, a.phase = .holding f) ∨ ∃ f, a.phase = .foundStale f ∧ a'.phase = .removed)) := by
  cases h with
  | create allow h => exact ⟨rfl, .inr (.inl h)⟩
  | stampFails allow h => exact ⟨rfl, .inr (.inl h)⟩
  | recreate allow h => exact ⟨rfl, .inr (.inl h)⟩
  | restampFails allow h => exact ⟨rfl, .inr (.inl h)⟩
  | remove allow f => exact ⟨rfl, .inr (.inr (.inr ⟨f, rfl, rfl⟩))⟩
  | drop allow f => exact ⟨rfl, .inr (.inr (.inl ⟨f, rfl⟩))⟩
  | _ => exact ⟨rfl, .inl rfl⟩

theorem LockStep.holding (h : LockStep i dir a dir' a') (ha : a'.phase = .holding f) :
    dir'.file = some f ∧ f.owner = i := by
  cases h with
  | create allow h =>
    obtain rfl := LockPhase.holding.inj ha
    exact ⟨rfl, rfl⟩
  | recreate allow h =>
    obtain rfl := LockPhase.holding.inj ha
    exact ⟨rfl, rfl⟩
  | _ => cases ha

theorem LockStep.foundStale (h : LockStep i dir a dir' a') (ha : a'.phase = .foundStale f) :
    f.isStale dir'.now = true := by
  cases h with
  | @stale g hf hs =>
    obtain rfl := LockPhase.foundStale.inj ha
    simpa [lockIsStale, hf] using hs
  | _ => cases ha

end Steps

structure LockInv (s : LockSystem) : Prop where
  held : ∀ i f, s.Holds i f → s.shared.file = some f ∧ f.owner = i
  judged : ∀ a ∈ s.threads, ∀ f, a.phase = .foundStale f → f.isStale s.shared.now = true
  timely : s.Timely

namespace LockInv

variable {s s' : LockSystem}

theorem start : LockInv ⟨.empty, []⟩ := by
  refine ⟨?_, nofun, ?_⟩
  · rintro i f ⟨allow, h⟩
    simp at h
  · rintro i f ⟨allow, h⟩
    simp at h

theorem act (h : LockInv s) {i : Nat} {a a' : Acquirer} {dir : LockDir} (hi : s.threads[i]? = some a)
    (hstep : LockStep i s.shared a dir a') (hstale : TakesStale s.shared a a')
    (htimely : LockSystem.Timely ⟨dir, s.threads.set i a'⟩) : LockInv ⟨dir, s.threads.set i a'⟩ := by
  obtain ⟨hnow, hfile⟩ := hstep.file_cases
  refine ⟨?_, ?_, htimely⟩
  · rintro j f ⟨allow, hj⟩
    rcases getElem?_set_cases hj with ⟨rfl, rfl⟩ | ⟨hne, hj⟩
    · exact hstep.holding rfl
    obtain ⟨hplace, howner⟩ := h.held j f ⟨allow, hj⟩
    refine ⟨?_, howner⟩
    rcases hfile with hsame | hnone | ⟨g, hg⟩ | ⟨g, hg, hremoved⟩
    · exact hsame.trans hplace
    · rw [hnone] at hplace
      cases hplace
    · -- A drop by another acquisition: both would own the one file.
      obtain ⟨hplace', howner'⟩ := h.held i g ⟨a.allowLegacyTakeover, by rw [hi, ← hg]⟩
      obtain rfl := Option.some.inj (hplace.symm.trans hplace')
      exact absurd (howner.symm.trans howner') hne
    · have hold := h.judged a (List.mem_of_getElem? hi) g hg
      obtain rfl := hstale g hg hremoved f hplace
      have hlate := LockFile.isStale_iff.mp hold
      have hearly := h.timely j f ⟨allow, hj⟩
      omega
  · intro b hb f hf
    rw [hnow]
    rcases List.mem_or_eq_of_mem_set hb with hb | rfl
    · exact h.judged b hb f hf
    · have hfound := hstep.foundStale hf
      rwa [hnow] at hfound

theorem step (h : LockInv s) (hstep : TimelyLockStep (fun i dir a dir' a' => LockStep i dir a dir' a' ∧
    TakesStale dir a a') s s') : LockInv s' := by
  obtain ⟨hstep, htimely⟩ := hstep
  cases hstep with
  | spawn ht =>
    refine ⟨?_, ?_, htimely⟩
    · rintro j f ⟨allow, hj⟩
      rcases getElem?_concat_cases hj with hj | ⟨-, rfl⟩
      · exact h.held j f ⟨allow, hj⟩
      · cases ht
    · intro b hb f hf
      rcases List.mem_append.mp hb with hb | hb
      · exact h.judged b hb f hf
      · rw [List.mem_singleton.mp hb, show _ = _ from ht] at hf
        cases hf
  | env he =>
    obtain ⟨nanos⟩ := he
    refine ⟨fun i f hi => h.held i f hi, fun b hb f hf => ?_, htimely⟩
    have hold := LockFile.isStale_iff.mp (h.judged b hb f hf)
    exact LockFile.isStale_iff.mpr (hold.trans (Nat.le_add_right _ nanos))
  | act hi ha => exact h.act hi ha.1 ha.2 htimely

theorem run (h : CarefulLockRun s) : LockInv s := by
  induction h with
  | refl => exact start
  | tail _ hstep ih => exact ih.step hstep

end LockInv

/-- With takeovers that remove what they found stale, at most one acquisition
holds the lock, and the file that its drop removes is its own. -/
theorem lock_exclusive {s : LockSystem} (h : CarefulLockRun s) :
    (∀ i j f g, s.Holds i f → s.Holds j g → i = j) ∧ ∀ i f, s.Holds i f → s.shared.file = some f ∧ f.owner = i := by
  have hinv := LockInv.run h
  refine ⟨fun i j f g hi hj => ?_, hinv.held⟩
  obtain ⟨hf, hfi⟩ := hinv.held i f hi
  obtain ⟨hg, hgj⟩ := hinv.held j g hj
  obtain rfl := Option.some.inj (hf.symm.trans hg)
  exact hfi.symm.trans hgj

section Scenarios

theorem LockSystem.timely_of_all {s : LockSystem} (h : (s.threads.all fun a => match a.phase with
    | .holding f => decide (s.shared.now < f.mtime + staleLockSecs * nanosPerSec)
    | _ => true) = true) : s.Timely := by
  rintro i f ⟨allow, hi⟩
  have ha := List.all_eq_true.mp h _ (List.mem_of_getElem? hi)
  exact of_decide_eq_true ha

theorem TimelyLockStep.acts {act : Nat → LockDir → Acquirer → LockDir → Acquirer → Prop} {s s' : LockSystem} (i : Nat)
    {a a' : Acquirer} (ha : act i s.shared a s'.shared a') (hi : s.threads[i]? = some a)
    (hs : s'.threads = s.threads.set i a') (htimely : s'.Timely) : TimelyLockStep act s s' := by
  obtain ⟨shared, threads⟩ := s'
  obtain rfl : threads = s.threads.set i a' := hs
  exact ⟨.act hi ha, htimely⟩

def takeoverTime : Nat := staleLockSecs * nanosPerSec

def staleFile : LockFile := ⟨0, 0⟩

def abandonedLock (arrivals : List Acquirer) : LockSystem :=
  ⟨⟨takeoverTime, some staleFile⟩, ⟨true, .crashed⟩ :: arrivals⟩

theorem abandonedLock_run {act : Nat → LockDir → Acquirer → LockDir → Acquirer → Prop}
    (hcreate : ∀ i dir allow, dir.file = none →
      act i dir ⟨allow, .entered⟩ (dir.tryCreate i) ⟨allow, .holding (dir.nextFile i)⟩)
    (hcrash : ∀ i dir a, act i dir a dir { a with phase := .crashed }) :
    Relation.ReflTransGen (TimelyLockStep act) ⟨.empty, []⟩ (abandonedLock []) := by
  have h₁ : TimelyLockStep act ⟨.empty, []⟩ ⟨.empty, [⟨true, .entered⟩]⟩ :=
    ⟨.spawn rfl, LockSystem.timely_of_all rfl⟩
  have h₂ : TimelyLockStep act ⟨.empty, [⟨true, .entered⟩]⟩ ⟨⟨0, some staleFile⟩, [⟨true, .holding staleFile⟩]⟩ :=
    .acts 0 (hcreate 0 .empty true rfl) rfl rfl (LockSystem.timely_of_all (by decide))
  have h₃ : TimelyLockStep act ⟨⟨0, some staleFile⟩, [⟨true, .holding staleFile⟩]⟩
      ⟨⟨0, some staleFile⟩, [⟨true, .crashed⟩]⟩ :=
    .acts 0 (hcrash 0 _ ⟨true, .holding staleFile⟩) rfl rfl (LockSystem.timely_of_all rfl)
  have h₄ : TimelyLockStep act ⟨⟨0, some staleFile⟩, [⟨true, .crashed⟩]⟩ (abandonedLock []) :=
    ⟨.env (.tick ⟨0, some staleFile⟩ takeoverTime), LockSystem.timely_of_all rfl⟩
  exact (((Relation.ReflTransGen.single h₁).tail h₂).tail h₃).tail h₄

/-- Two processes found the same lock stale. The second removes the lock that the
first has created in the meantime. -/
def twoHolders : LockSystem :=
  ⟨⟨takeoverTime, some ⟨2, takeoverTime⟩⟩,
    [⟨true, .crashed⟩, ⟨true, .holding ⟨1, takeoverTime⟩⟩, ⟨true, .holding ⟨2, takeoverTime⟩⟩]⟩

theorem twoHolders_run : LockRun twoHolders := by
  have hstart := @abandonedLock_run LockStep (fun i dir allow h => .create dir allow h)
    (fun i dir a => .crash dir a)
  have h₁ : TimelyLockStep LockStep (abandonedLock []) (abandonedLock [⟨true, .entered⟩]) :=
    ⟨.spawn rfl, LockSystem.timely_of_all rfl⟩
  have h₂ : TimelyLockStep LockStep (abandonedLock [⟨true, .entered⟩])
      (abandonedLock [⟨true, .entered⟩, ⟨true, .entered⟩]) :=
    ⟨.spawn rfl, LockSystem.timely_of_all rfl⟩
  have h₃ : TimelyLockStep LockStep (abandonedLock [⟨true, .entered⟩, ⟨true, .entered⟩])
      (abandonedLock [⟨true, .exists⟩, ⟨true, .entered⟩]) :=
    .acts 1 (.found _ true rfl) rfl rfl (LockSystem.timely_of_all rfl)
  have h₄ : TimelyLockStep LockStep (abandonedLock [⟨true, .exists⟩, ⟨true, .entered⟩])
      (abandonedLock [⟨true, .exists⟩, ⟨true, .exists⟩]) :=
    .acts 2 (.found _ true rfl) rfl rfl (LockSystem.timely_of_all rfl)
  have h₅ : TimelyLockStep LockStep (abandonedLock [⟨true, .exists⟩, ⟨true, .exists⟩])
      (abandonedLock [⟨true, .foundStale staleFile⟩, ⟨true, .exists⟩]) :=
    .acts 1 (.stale _ rfl (by decide)) rfl rfl (LockSystem.timely_of_all rfl)
  have h₆ : TimelyLockStep LockStep (abandonedLock [⟨true, .foundStale staleFile⟩, ⟨true, .exists⟩])
      (abandonedLock [⟨true, .foundStale staleFile⟩, ⟨true, .foundStale staleFile⟩]) :=
    .acts 2 (.stale _ rfl (by decide)) rfl rfl (LockSystem.timely_of_all rfl)
  have h₇ : TimelyLockStep LockStep (abandonedLock [⟨true, .foundStale staleFile⟩, ⟨true, .foundStale staleFile⟩])
      ⟨⟨takeoverTime, none⟩, [⟨true, .crashed⟩, ⟨true, .removed⟩, ⟨true, .foundStale staleFile⟩]⟩ :=
    .acts 1 (.remove _ true staleFile) rfl rfl (LockSystem.timely_of_all rfl)
  have h₈ : TimelyLockStep LockStep
      ⟨⟨takeoverTime, none⟩, [⟨true, .crashed⟩, ⟨true, .removed⟩, ⟨true, .foundStale staleFile⟩]⟩
      ⟨⟨takeoverTime, some ⟨1, takeoverTime⟩⟩,
        [⟨true, .crashed⟩, ⟨true, .holding ⟨1, takeoverTime⟩⟩, ⟨true, .foundStale staleFile⟩]⟩ :=
    .acts 1 (.recreate ⟨takeoverTime, none⟩ true rfl) rfl rfl (LockSystem.timely_of_all (by decide))
  have h₉ : TimelyLockStep LockStep
      ⟨⟨takeoverTime, some ⟨1, takeoverTime⟩⟩,
        [⟨true, .crashed⟩, ⟨true, .holding ⟨1, takeoverTime⟩⟩, ⟨true, .foundStale staleFile⟩]⟩
      ⟨⟨takeoverTime, none⟩, [⟨true, .crashed⟩, ⟨true, .holding ⟨1, takeoverTime⟩⟩, ⟨true, .removed⟩]⟩ :=
    .acts 2 (.remove _ true staleFile) rfl rfl (LockSystem.timely_of_all (by decide))
  have h₁₀ : TimelyLockStep LockStep
      ⟨⟨takeoverTime, none⟩, [⟨true, .crashed⟩, ⟨true, .holding ⟨1, takeoverTime⟩⟩, ⟨true, .removed⟩]⟩ twoHolders :=
    .acts 2 (.recreate ⟨takeoverTime, none⟩ true rfl) rfl rfl (LockSystem.timely_of_all (by decide))
  exact (((((((((hstart.tail h₁).tail h₂).tail h₃).tail h₄).tail h₅).tail h₆).tail h₇).tail h₈).tail h₉).tail h₁₀

/-- Two processes hold the lock, and the drop of the first removes the file of the
second. -/
theorem two_reclaimers_hold :
    LockRun twoHolders ∧ twoHolders.Holds 1 ⟨1, takeoverTime⟩ ∧ twoHolders.Holds 2 ⟨2, takeoverTime⟩ ∧
      twoHolders.shared.file = some ⟨2, takeoverTime⟩ ∧
      LockStep 1 twoHolders.shared ⟨true, .holding ⟨1, takeoverTime⟩⟩ ⟨takeoverTime, none⟩ ⟨true, .dropped⟩ :=
  ⟨twoHolders_run, ⟨true, rfl⟩, ⟨true, rfl⟩, rfl, .drop _ true _⟩

/-- One process takes the abandoned lock over. -/
theorem one_reclaimer_holds :
    ∃ s : LockSystem, s.Holds 1 ⟨1, takeoverTime⟩ ∧ (∀ j g, s.Holds j g → j = 1) ∧
      s.shared.file = some ⟨1, takeoverTime⟩ := by
  let careful (i : Nat) (dir : LockDir) (a : Acquirer) (dir' : LockDir) (a' : Acquirer) : Prop :=
    LockStep i dir a dir' a' ∧ TakesStale dir a a'
  have hstart : CarefulLockRun (abandonedLock []) :=
    abandonedLock_run (fun i dir allow h => ⟨.create dir allow h, nofun⟩) (fun i dir a => ⟨.crash dir a, nofun⟩)
  have h₁ : TimelyLockStep careful (abandonedLock []) (abandonedLock [⟨true, .entered⟩]) :=
    ⟨.spawn rfl, LockSystem.timely_of_all rfl⟩
  have h₂ : TimelyLockStep careful (abandonedLock [⟨true, .entered⟩]) (abandonedLock [⟨true, .exists⟩]) :=
    .acts 1 ⟨.found _ true rfl, nofun⟩ rfl rfl (LockSystem.timely_of_all rfl)
  have h₃ : TimelyLockStep careful (abandonedLock [⟨true, .exists⟩]) (abandonedLock [⟨true, .foundStale staleFile⟩]) :=
    .acts 1 ⟨.stale _ rfl (by decide), nofun⟩ rfl rfl (LockSystem.timely_of_all rfl)
  have h₄ : TimelyLockStep careful (abandonedLock [⟨true, .foundStale staleFile⟩])
      ⟨⟨takeoverTime, none⟩, [⟨true, .crashed⟩, ⟨true, .removed⟩]⟩ := by
    refine .acts 1 ⟨.remove _ true staleFile, fun f hf _ g hg => ?_⟩ rfl rfl (LockSystem.timely_of_all rfl)
    exact (Option.some.inj hg).symm.trans (LockPhase.foundStale.inj hf)
  have h₅ : TimelyLockStep careful ⟨⟨takeoverTime, none⟩, [⟨true, .crashed⟩, ⟨true, .removed⟩]⟩
      ⟨⟨takeoverTime, some ⟨1, takeoverTime⟩⟩, [⟨true, .crashed⟩, ⟨true, .holding ⟨1, takeoverTime⟩⟩]⟩ :=
    .acts 1 ⟨.recreate ⟨takeoverTime, none⟩ true rfl, nofun⟩ rfl rfl (LockSystem.timely_of_all (by decide))
  have hrun := ((((hstart.tail h₁).tail h₂).tail h₃).tail h₄).tail h₅
  obtain ⟨hone, hfile⟩ := lock_exclusive hrun
  exact ⟨_, ⟨true, rfl⟩, fun j g hj => hone j 1 g _ hj ⟨true, rfl⟩, (hfile 1 _ ⟨true, rfl⟩).1⟩

end Scenarios

end Hugit
