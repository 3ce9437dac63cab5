import Recycler.Proofs.Session.Advance

/-!
# Runs

A run of a session is a list of moments, in each of which a command is given to a thread, a thread
is carried on by one frame, or a holder is looked at. Which thread goes on is not determined, so a
statement about all runs is one about every interleaving.

A release has two steps: the holder is reset, and then it is offered back to its pool. Other moments
may come in between. A run is `unbroken` if none does. The runs of a program are among these
(`exists_follow?_runStep`).
-/

namespace Recycler

/-- What happens next in a session. -/
inductive Moment
  | give (thread : Nat) (command : Command)
  | carry (thread : Nat)
  | look (holder : Nat)

def Frame.isGiveBack : Frame → Bool
  | .giveBack _ => true
  | _ => false

namespace Session

def next? (s : Session) : Moment → Option Session
  | .give i c =>
    if i < s.threads.length then
      some (({ s with events := [], logs := [] }).push i [.command c, .conclude])
    else none
  | .carry i => s.advance? i
  | .look h => some (s.view? h).1

/-- A command that the main thread is given and carries out in two frames. -/
def told (c : Command) : List Moment := [.give mainThread c, .carry mainThread, .carry mainThread]

/-- The session after a run, if each of its moments could come. -/
def follow? (s : Session) (ms : List Moment) : Option Session := ms.foldlM next? s

/-- Whether a release was begun and is not at its end. -/
def isReleasing (s : Session) : Bool := s.threads.any fun t => t.stack.any Frame.isGiveBack

/-- Whether a moment comes between the two steps of a release. -/
def interrupts (s : Session) : Moment → Bool
  | .give .. => s.isReleasing
  | .carry i => s.isReleasing && !(s.top? i).any Frame.isGiveBack
  | .look _ => false

/-- Whether each release of a run, once begun, comes to its end before anything else is done. -/
def unbroken (s : Session) : List Moment → Bool
  | [] => true
  | m :: ms => !s.interrupts m && (s.next? m).all (·.unbroken ms)

/-- What a moment does to the store. -/
def momentActs (s : Session) : Moment → List Store.Act
  | .carry i => s.acts i
  | _ => []

/-- What a run does to the store. -/
def runActs (s : Session) : List Moment → List Store.Act
  | [] => []
  | m :: ms => s.momentActs m ++ match s.next? m with
    | some s' => s'.runActs ms
    | none => []

variable {s s' s'' : Session} {i : Nat} {m : Moment} {ms ns : List Moment}

@[simp] theorem follow?_nil (s : Session) : s.follow? [] = some s := rfl

theorem follow?_cons (s : Session) (m : Moment) (ms : List Moment) :
    s.follow? (m :: ms) = (s.next? m).bind (·.follow? ms) := rfl

theorem follow?_cons_eq_some :
    s.follow? (m :: ms) = some s' ↔ ∃ t, s.next? m = some t ∧ t.follow? ms = some s' := by
  rw [follow?_cons, Option.bind_eq_some_iff]

theorem follow?_singleton (h : s.next? m = some s') : s.follow? [m] = some s' :=
  follow?_cons_eq_some.2 ⟨s', h, rfl⟩

theorem follow?_append (s : Session) (ms ns : List Moment) :
    s.follow? (ms ++ ns) = (s.follow? ms).bind (·.follow? ns) := by
  induction ms generalizing s with
  | nil => rfl
  | cons m ms ih =>
      rw [List.cons_append, follow?_cons, follow?_cons]
      cases s.next? m with
      | none => rfl
      | some t => exact ih t

theorem follow?_trans (h : s.follow? ms = some s') (h' : s'.follow? ns = some s'') :
    s.follow? (ms ++ ns) = some s'' := by
  rw [follow?_append, h]
  exact h'

@[simp] theorem runActs_nil (s : Session) : s.runActs [] = [] := rfl

theorem runActs_cons (h : s.next? m = some s') (ms : List Moment) :
    s.runActs (m :: ms) = s.momentActs m ++ s'.runActs ms := by
  rw [runActs, h]

theorem runActs_append (h : s.follow? ms = some s') (ns : List Moment) :
    s.runActs (ms ++ ns) = s.runActs ms ++ s'.runActs ns := by
  induction ms generalizing s with
  | nil =>
      obtain rfl := Option.some.inj h
      rfl
  | cons m ms ih =>
      obtain ⟨t, ht, h⟩ := follow?_cons_eq_some.1 h
      rw [List.cons_append, runActs_cons ht, runActs_cons ht, ih h, List.append_assoc]

/-- What a moment may be. -/
inductive Happens (s : Session) : Moment → Session → Prop
  | give {i : Nat} (c : Command) (hi : i < s.threads.length) :
      Happens s (.give i c) (({ s with events := [], logs := [] }).push i [.command c, .conclude])
  | carry {i : Nat} {f : Frame} {s' : Session} (hf : s.top? i = some f)
      (ht : Turn (s.off i) i f s') : Happens s (.carry i) s'
  | look (h : Nat) : Happens s (.look h) (s.view? h).1

theorem happens_of_next? (h : s.next? m = some s') : Happens s m s' := by
  cases m with
  | give i c =>
      rw [next?] at h
      split at h
      · next hi =>
          obtain rfl := Option.some.inj h
          exact .give c hi
      · cases h
  | carry i =>
      obtain ⟨f, hf, ht⟩ := turn_of_advance? h
      exact .carry hf ht
  | look k =>
      obtain rfl := Option.some.inj h
      exact .look k

theorem momentActs_carry {f : Frame} (hf : s.top? i = some f) :
    s.momentActs (.carry i) = (s.off i).frameActs i f := by
  rw [momentActs, acts, hf]

/-- Only carrying a thread on does anything to the store. -/
theorem exists_of_mem_momentActs {a : Store.Act} (ha : a ∈ s.momentActs m) :
    ∃ i f, m = .carry i ∧ s.top? i = some f := by
  cases m with
  | carry i =>
      rw [momentActs, acts] at ha
      split at ha
      · next f hf => exact ⟨i, f, rfl, hf⟩
      · cases ha
  | give i c => cases ha
  | look h => cases ha

theorem store_next? (h : s.next? m = some s') : s'.store = s.store.acts (s.momentActs m) := by
  cases m with
  | give i c =>
      rw [next?] at h
      split at h
      · obtain rfl := Option.some.inj h
        rfl
      · cases h
  | carry i => exact store_advance? h
  | look k =>
      obtain rfl := Option.some.inj h
      exact (s.like_view? k).store

theorem store_follow? (h : s.follow? ms = some s') : s'.store = s.store.acts (s.runActs ms) := by
  induction ms generalizing s with
  | nil =>
      obtain rfl := Option.some.inj h
      rfl
  | cons m ms ih =>
      obtain ⟨t, ht, h⟩ := follow?_cons_eq_some.1 h
      rw [runActs_cons ht, Store.acts_append, ← store_next? ht]
      exact ih h

/-- Each act of a run is done in one of its moments. -/
theorem exists_of_runActs_eq {a : Store.Act} {as bs : List Store.Act} (h : s.follow? ms = some s')
    (heq : s.runActs ms = as ++ a :: bs) :
    ∃ ks i f ns u cs ds, ms = ks ++ .carry i :: ns ∧ s.follow? ks = some u ∧ u.top? i = some f ∧
      (u.off i).frameActs i f = cs ++ a :: ds ∧ as = s.runActs ks ++ cs := by
  induction ms generalizing s as with
  | nil => exact absurd heq.symm (by simp)
  | cons m ms ih =>
      obtain ⟨t, ht, h⟩ := follow?_cons_eq_some.1 h
      rw [runActs_cons ht, List.append_eq_append_iff] at heq
      rcases heq with ⟨cs, rfl, heq⟩ | ⟨cs, heq, hrest⟩
      · -- in a later moment
        obtain ⟨ks, i, f, ns, u, ds, es, rfl, hks, hf, hacts, rfl⟩ := ih h heq
        refine ⟨m :: ks, i, f, ns, u, ds, es, rfl, ?_, hf, hacts, ?_⟩
        · exact follow?_cons_eq_some.2 ⟨t, ht, hks⟩
        · rw [runActs_cons ht, List.append_assoc]
      · cases cs with
        | nil =>
            rw [List.append_nil] at heq
            have hlater : t.runActs ms = [] ++ a :: bs := hrest.symm
            obtain ⟨ks, i, f, ns, u, ds, es, rfl, hks, hf, hacts, hds⟩ := ih h hlater
            refine ⟨m :: ks, i, f, ns, u, ds, es, rfl, ?_, hf, hacts, ?_⟩
            · exact follow?_cons_eq_some.2 ⟨t, ht, hks⟩
            · rw [runActs_cons ht, List.append_assoc, ← hds, List.append_nil, heq]
        | cons b cs =>
            obtain ⟨rfl, -⟩ := List.cons.inj hrest
            have hmem : a ∈ s.momentActs m := heq ▸ List.mem_append_cons_self
            obtain ⟨i, f, rfl, hf⟩ := exists_of_mem_momentActs hmem
            rw [momentActs_carry hf] at heq
            exact ⟨[], i, f, ms, s, as, cs, rfl, rfl, hf, heq, rfl⟩

/-- What every moment keeps, every run keeps. -/
theorem follow?_induction {P : Session → Prop}
    (hstep : ∀ s s' m, s.next? m = some s' → P s → P s')
    (h : s.follow? ms = some s') (hs : P s) : P s' := by
  induction ms generalizing s with
  | nil =>
      obtain rfl := Option.some.inj h
      exact hs
  | cons m ms ih =>
      obtain ⟨t, ht, h⟩ := follow?_cons_eq_some.1 h
      exact ih h (hstep s t m ht hs)

/-- A session that some run of a program leads to. -/
def Reachable (s : Session) : Prop := ∃ p ms, (ofProgram p).follow? ms = some s

theorem Reachable.follow? (hr : s.Reachable) (h : s.follow? ms = some s') : s'.Reachable := by
  obtain ⟨p, ns, hns⟩ := hr
  exact ⟨p, ns ++ ms, follow?_trans hns h⟩

/-! ## Unbroken runs -/

/-- While a release is under way, it is its last step that an unbroken run goes on with. -/
theorem isGiveBack_of_not_interrupts {f : Frame} (h : s.interrupts (.carry i) = false)
    (hf : s.top? i = some f) (hrel : s.isReleasing) : f.isGiveBack := by
  rwa [interrupts, hrel, Bool.true_and, Bool.not_eq_false', hf, Option.any_some] at h

@[simp] theorem unbroken_nil (s : Session) : s.unbroken [] := rfl

theorem unbroken_cons (h : s.next? m = some s') :
    s.unbroken (m :: ms) ↔ s.interrupts m = false ∧ s'.unbroken ms := by
  rw [unbroken, h, Option.all_some, Bool.and_eq_true, Bool.not_eq_true']

theorem unbroken_append (h : s.follow? ms = some s') :
    s.unbroken (ms ++ ns) ↔ s.unbroken ms ∧ s'.unbroken ns := by
  induction ms generalizing s with
  | nil =>
      obtain rfl := Option.some.inj h
      rw [List.nil_append, and_iff_right (unbroken_nil s)]
  | cons m ms ih =>
      obtain ⟨t, ht, h⟩ := follow?_cons_eq_some.1 h
      rw [List.cons_append, unbroken_cons ht, unbroken_cons ht, ih h, and_assoc]

/-- A session that some unbroken run of a program leads to. -/
def Orderly (s : Session) : Prop :=
  ∃ p ms, (ofProgram p).unbroken ms ∧ (ofProgram p).follow? ms = some s

theorem Orderly.reachable (ho : s.Orderly) : s.Reachable := by
  obtain ⟨p, ms, -, hms⟩ := ho
  exact ⟨p, ms, hms⟩

theorem Orderly.follow? (ho : s.Orderly) (hu : s.unbroken ms) (h : s.follow? ms = some s') :
    s'.Orderly := by
  obtain ⟨p, ns, hns, hrun⟩ := ho
  exact ⟨p, ns ++ ms, (unbroken_append hrun).2 ⟨hns, hu⟩, follow?_trans hrun h⟩

theorem Orderly.of_follow?_initial (ho : s.Orderly) (hu : s.unbroken ms) (hns : ns <+: ms)
    (h : s.follow? ns = some s') : s'.Orderly := by
  obtain ⟨ks, rfl⟩ := hns
  exact ho.follow? ((unbroken_append h).1 hu).1 h

theorem Orderly.next? (ho : s.Orderly) (hm : s.interrupts m = false) (h : s.next? m = some s') :
    s'.Orderly :=
  ho.follow? ((unbroken_cons h).2 ⟨hm, unbroken_nil s'⟩) (follow?_singleton h)

/-- What every moment of an unbroken run keeps, the run keeps. -/
theorem unbroken_induction {P : Session → Prop}
    (hstep : ∀ s s' m, s.interrupts m = false → s.next? m = some s' → P s → P s')
    (hu : s.unbroken ms) (h : s.follow? ms = some s') (hs : P s) : P s' := by
  induction ms generalizing s with
  | nil =>
      obtain rfl := Option.some.inj h
      exact hs
  | cons m ms ih =>
      obtain ⟨t, ht, h⟩ := follow?_cons_eq_some.1 h
      obtain ⟨hm, hu⟩ := (unbroken_cons ht).1 hu
      exact ih hu h (hstep s t m hm ht hs)

end Session

end Recycler
