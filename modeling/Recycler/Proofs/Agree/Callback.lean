import Recycler.Proofs.Agree.Scene

/-!
# Callbacks that write heights

What a callback comes to from its call to its end, if it does nothing but write heights through
weak handles: `called` is the session afterwards, `Leads.fire` says that every step with such a call
leads there, and `Writes` what stays the same.
-/

namespace Recycler

/-- Whether a step of a script writes a height through a weak handle. -/
def Step.isWrite (step : Step) : Bool :=
  match step.command with
  | .writeHeight .. => true
  | _ => false

/-- A holder but for its height. -/
def Holder.blurred (x : Holder) : Holder := { x with state := { x.state with height := none } }

namespace Store

/-- A store but for the heights of the holders. -/
def blurred (s : Store) : Store := { s with holders := s.holders.map Holder.blurred }

variable {s t : Store} {h : Nat} {x : Holder}

theorem blurred_writeHeight (s : Store) (w : WeakHandle) (height : Int32) :
    (s.writeHeight w height).blurred = s.blurred := by
  unfold writeHeight
  split
  · have hsame : (s.modifyState w.holder ({ · with height := some height })).holders.map
        Holder.blurred = s.holders.map Holder.blurred := by
      refine List.ext_getElem? fun k => ?_
      rw [List.getElem?_map, List.getElem?_map, getElem?_modifyState, Option.map_map]
      congr 1
      funext x
      rw [Function.comp_apply]
      split <;> rfl
    exact congrArg (fun holders => { s with holders }) hsame
  · rfl

theorem engines_of_blurred (hb : t.blurred = s.blurred) : t.engines = s.engines := by
  show t.blurred.engines = s.blurred.engines
  rw [hb]

theorem queues_of_blurred (hb : t.blurred = s.blurred) : t.queues = s.queues := by
  show t.blurred.queues = s.blurred.queues
  rw [hb]

theorem exists_of_blurred (hb : t.blurred = s.blurred) (hx : s.holders[h]? = some x) :
    ∃ height, t.holders[h]? = some { x with state := { x.state with height } } := by
  have hget : t.blurred.holders[h]? = s.blurred.holders[h]? := by rw [hb]
  simp only [blurred, List.getElem?_map, hx, Option.map_some] at hget
  obtain ⟨y, hy, hyx⟩ := Option.map_eq_some_iff.1 hget
  refine ⟨y.state.height, hy.trans (congrArg some ?_)⟩
  calc y = { y.blurred with state := { y.blurred.state with height := y.state.height } } := rfl
    _ = { x with state := { x.state with height := y.state.height } } := by rw [hyx]; rfl

end Store

namespace Session

/-- What is left of a script does nothing but write heights through weak handles. -/
def OnlyWrites (s : Session) (script : Option Nat) : Prop :=
  ∀ steps ∈ ((script.bind fun n => s.scripts[n]?).getD []), ∀ step ∈ steps, step.isWrite

instance (s : Session) (script : Option Nat) : Decidable (s.OnlyWrites script) :=
  inferInstanceAs (Decidable (∀ steps ∈ _, ∀ step ∈ steps, _))

/-- The session after a step of a script that writes a height. -/
def wrote (s : Session) (name : Option String) (weak : String) (height : Int32) : Session :=
  match s.weakHandle weak with
  | .error trouble => s.report (.step name (.trouble trouble))
  | .ok w =>
    let written := (s.resolve? w).isSome
    (s.modifyStore fun σ => if written then σ.writeHeight w height else σ).report
      (.step name (.truth written))

/-- The session after a list of a script. -/
def ran (s : Session) : List Step → Session
  | [] => s
  | { name, command := .writeHeight weak height, .. } :: rest => (s.wrote name weak height).ran rest
  | _ :: rest => s.ran rest

/-- The session with `lists` left of a script. -/
def leave (s : Session) (n : Nat) (lists : List (List Step)) : Session :=
  { s with scripts := s.scripts.set n lists }

/-- The session after a script was called. -/
def called (s : Session) (script : Option Nat) : Session :=
  match script with
  | none => s
  | some n =>
    match s.scripts[n]? with
    | some (steps :: rest) => (s.leave n rest).ran steps
    | _ => s

variable {b c d e s s' : Session} {i : Nat} {f : Frame} {fs gs : List Frame} {l : Layout}
  {sequel : Sequel} {script : Option Nat}

theorem At.stepReport {r : Reply} (hat : At b i fs c s) (hreply : s.reply? i = some r)
    (name : Option String) : At b i fs (c.report (.step name r)) (s.stepReport i name) := by
  obtain ⟨t, ht, rfl⟩ := Option.map_eq_some_iff.1 hreply
  rw [Session.stepReport, ht]
  exact hat.report _

theorem reply?_off (s : Session) (i j : Nat) : (s.off i).reply? j = s.reply? j := by
  rw [reply?, reply?, off, modifyThread, List.getElem?_modify]
  cases s.threads[j]? with
  | none => rfl
  | some t => split <;> rfl

/-- A step of a script that writes a height, from the command to the report. -/
theorem leads_write (hb : b.Calm) (name : Option String) (weak : String) (height : Int32)
    (fs : List Frame) :
    Leads b i (.command (.writeHeight weak height) :: .report name :: fs) c fs
      (c.wrote name weak height) := by
  intro s hat
  have hi := lt_off_of_top? hat.top?
  have hoff := hat.off
  -- The reply that the command leaves on the thread, and what it does to the store.
  obtain ⟨r, σ, hd, hstep⟩ : ∃ r σ, c.wrote name weak height =
      (c.modifyStore σ).report (.step name r) ∧
        (s.off i).stepFrame i (.command (.writeHeight weak height)) =
          ((s.off i).modifyStore σ).answer i r := by
    have hweak : (s.off i).weakHandle weak = c.weakHandle weak := by
      rw [weakHandle, weakHandle, hoff.registers]
    cases hw : c.weakHandle weak with
    | error trouble =>
        refine ⟨.trouble trouble, id, by rw [wrote, hw]; rfl, ?_⟩
        rw [stepFrame, stepCommand, perform, Session.writeHeight, hweak, hw]
        rfl
    | ok w =>
        refine ⟨_, _, by rw [wrote, hw], ?_⟩
        rw [stepFrame, stepCommand_writeHeight (hweak.trans hw), hoff.resolve? hb]
        rfl
  obtain ⟨s₁, hn₁, hat₁, hreply₁⟩ := hat.carry rfl (hstep ▸ (hoff.modifyStore σ).answer r)
  rw [hstep, reply?_answer (by exact hi)] at hreply₁
  obtain ⟨s₂, hn₂, hat₂, -⟩ := hat₁.carry rfl
    (hat₁.off.stepReport ((reply?_off s₁ i i).trans hreply₁) name)
  have hreported : s₁.Reaches i (At b i fs (c.wrote name weak height)) :=
    .step hat₁.top? rfl hn₂ (hd ▸ hat₂)
  exact Reaches.trans (.step hat.top? rfl hn₁ rfl) fun s' hs' => hs' ▸ hreported

/-- A list of steps that write heights. -/
theorem leads_script (hb : b.Calm) {steps : List Step} (hwrites : ∀ step ∈ steps, step.isWrite)
    (fs : List Frame) (c : Session) : Leads b i (.script steps :: fs) c fs (c.ran steps) := by
  induction steps generalizing c with
  | nil => exact .step rfl fun s hat => ⟨rfl, hat.off⟩
  | cons step steps ih =>
      obtain ⟨name, handle, shows, command⟩ := step
      have hrest := ih fun step hstep => hwrites step (List.mem_cons_of_mem _ hstep)
      have hwrite := hwrites _ List.mem_cons_self
      cases command with
      | writeHeight weak height =>
          refine .trans (.step rfl fun s hat => ⟨rfl, hat.off.pushPlain
            [.command (.writeHeight weak height), .report name, .script steps] rfl⟩) ?_
          exact (leads_write hb name weak height _).trans (hrest _)
      | _ => cases hwrite

/-- A step that ends with a call of a script. -/
theorem Leads.fire (hb : b.Calm) (hf : f.isIncidental) (hwrites : d.OnlyWrites script)
    (hnext : ∀ s, At b i (f :: fs) c s → s.isBlocked f = false ∧
      ∃ u, At b i gs d u ∧ (s.off i).stepFrame i f = u.fire i script) :
    Leads b i (f :: fs) c gs (d.called script) := by
  intro s hat
  obtain ⟨hblocked, u, hu, hstep⟩ := hnext s hat
  -- Without a list that is left the step is at its end at once.
  have hplain (hfire : u.fire i script = u) : s.Reaches i (At b i gs d) := by
    obtain ⟨s', hn, hat', -⟩ := hat.carry hblocked (by rw [hstep, hfire]; exact hu)
    exact .step hat.top? hf hn hat'
  cases script with
  | none => exact hplain rfl
  | some n =>
      rw [called]
      split
      · next steps rest hlists =>
          have hcalled : At b i (.script steps :: gs) (d.leave n rest) (u.fire i (some n)) := by
            have hleft : At b i gs (d.leave n rest) (u.leave n rest) :=
              hu.congr rfl (congrArg (·.leave n rest) hu.scene) rfl
            rw [Session.fire, hu.scripts, hlists, ← hu.scripts]
            exact hleft.pushPlain [.script steps] rfl
          obtain ⟨s', hn, hat', -⟩ := hat.carry hblocked (hstep ▸ hcalled)
          have hreached := leads_script hb (hwrites steps (by
            rw [Option.bind_some, hlists]
            exact List.mem_cons_self)) gs _ s' hat'
          exact Reaches.trans (.step hat.top? hf hn rfl) fun t ht => ht ▸ hreached
      · next hlists =>
          refine hplain ?_
          rw [Session.fire, hu.scripts]
          split
          · next steps rest hsome => exact absurd hsome (hlists steps rest)
          · rfl

/-! ## What callbacks keep -/

/-- The session `d` comes from `c` by callbacks that write heights. -/
structure Writes (c d : Session) : Prop where
  heights : d.store.blurred = c.store.blurred
  registers : d.registers = c.registers
  scripts : ∀ script, c.OnlyWrites script → d.OnlyWrites script

theorem Writes.refl (c : Session) : Writes c c := ⟨rfl, rfl, fun _ h => h⟩

theorem Writes.trans (h : Writes c d) (h' : Writes d e) : Writes c e :=
  ⟨h'.heights.trans h.heights, h'.registers.trans h.registers,
    fun script hw => h'.scripts script (h.scripts script hw)⟩

theorem Writes.holds {h : Nat} (hw : Writes c d) (hh : c.Holds h) : d.Holds h := by
  obtain ⟨name, hn⟩ := hh
  exact ⟨name, hw.registers ▸ hn⟩

theorem writes_report (c : Session) (e : Event) : Writes c (c.report e) := ⟨rfl, rfl, fun _ h => h⟩

theorem writes_wrote (c : Session) (name : Option String) (weak : String) (height : Int32) :
    Writes c (c.wrote name weak height) := by
  unfold wrote
  split
  · exact c.writes_report _
  · next w _ =>
      refine ⟨?_, rfl, fun _ h => h⟩
      show Store.blurred (if _ then _ else _) = _
      split
      · exact c.store.blurred_writeHeight w height
      · rfl

theorem writes_ran (c : Session) (steps : List Step) : Writes c (c.ran steps) := by
  induction steps generalizing c with
  | nil => exact .refl c
  | cons step steps ih =>
      obtain ⟨name, handle, shows, command⟩ := step
      cases command with
      | writeHeight weak height => exact (c.writes_wrote name weak height).trans (ih _)
      | _ => exact ih c

theorem writes_leave (c : Session) {n : Nat} {steps : List Step} {rest : List (List Step)}
    (hlists : c.scripts[n]? = some (steps :: rest)) : Writes c (c.leave n rest) := by
  refine ⟨rfl, rfl, fun script hw => ?_⟩
  cases script with
  | none => exact hw
  | some k =>
      intro list hlist
      by_cases hk : n = k
      · subst hk
        have hn := (List.getElem?_eq_some_iff.1 hlists).1
        simp only [leave, Option.bind_some, List.getElem?_set_self hn, Option.getD_some] at hlist
        refine hw list ?_
        rw [Option.bind_some, hlists]
        exact List.mem_cons_of_mem steps hlist
      · simp only [leave, Option.bind_some, List.getElem?_set_ne hk] at hlist
        exact hw list hlist

theorem writes_called (c : Session) (script : Option Nat) : Writes c (c.called script) := by
  unfold called
  split
  · exact .refl c
  · next n =>
      split
      · next steps rest hlists =>
          exact (c.writes_leave hlists).trans (writes_ran _ steps)
      · exact .refl c

end Session
end Recycler
