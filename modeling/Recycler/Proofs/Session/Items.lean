import Recycler.Proofs.Session.Sound
import Recycler.Proofs.Store.Valid

/-!
# Descriptors

Descriptors are compared by their numbers. No two descriptors in a session have the same number
(`Reachable.catalogued`), so what is found to be the same instance is the same descriptor.
-/

namespace Recycler

/-- The descriptor that a frame of a request goes by. -/
def Frame.item? : Frame → Option (Shared Descriptor)
  | .claimTree _ item _ _ _ => some item
  | .layout _ (.commit r) _ => some r.item
  | .confirm r => some r.item
  | _ => none

namespace Session

variable {s s' : Session} {i : Nat} {f g : Frame} {item : Shared Descriptor}

/-- The descriptors that are somewhere in a session. -/
inductive Mentions (s : Session) : Shared Descriptor → Prop
  | register {item : Shared Descriptor} (h : s.Knows item) : Mentions s item
  | holder {h : Nat} {x : Holder} {item : Shared Descriptor} (hx : s.store.holders[h]? = some x)
      (hi : x.state.item = some item) : Mentions s item
  | frame {j : Nat} {f : Frame} {item : Shared Descriptor} (hf : f ∈ s.work j)
      (hi : f.item? = some item) : Mentions s item

/-- Descriptors with the same number are equal, and numbers to come are not in use. -/
def Catalogued (s : Session) : Prop :=
  ∃ table : Nat → Descriptor, ∀ item, s.Mentions item →
    item.number < s.issuedItems ∧ item.value = table item.number

theorem Catalogued.eq_of_same (h : s.Catalogued) {item' : Shared Descriptor}
    (hi : s.Mentions item) (hi' : s.Mentions item') (hsame : item.same item') : item = item' := by
  obtain ⟨table, htable⟩ := h
  have hnumber := (Shared.same_iff item item').1 hsame
  have hvalue : item.value = item'.value := by
    rw [(htable item hi).2, (htable item' hi').2, hnumber]
  cases item
  cases item'
  simp_all

/-! ## Steps -/

theorem item?_of_mem_launchFrames {t : Store} {r : Request} (hg : g ∈ launchFrames t r)
    (hi : g.item? = some item) : r.item = item := by
  rcases of_mem_launchFrames hg with rfl | rfl | rfl
  · cases hi
  · exact Option.some.inj hi
  · exact Option.some.inj hi

/-- A request goes by the descriptor of its holder at its first step. -/
theorem item?_of_ensues {fs : List Frame} (he : Ensues s f fs) (hg : g ∈ fs)
    (hi : g.item? = some item) : f.item? = some item ∨
      ∃ (h : Nat) (x : Holder), s.store.holders[h]? = some x ∧ x.state.item = some item := by
  cases he with
  | nothing => cases hg
  | opened call =>
      right
      unfold openingFrames at hg
      split at hg
      · next store r ho =>
          obtain ⟨-, -, -, x, hx, hitem⟩ := live?_of_openRequest (congrArg Prod.snd ho)
          obtain rfl := item?_of_mem_launchFrames hg hi
          exact ⟨_, x, hx, hitem⟩
      · next ho =>
          obtain ⟨-, x, hx, hitem, -⟩ := of_vacant_openRequest (congrArg Prod.snd ho)
          obtain rfl := List.mem_singleton.1 hg
          obtain rfl := Option.some.inj hi
          exact ⟨_, x, hx, hitem⟩
      · next ho =>
          obtain ⟨-, x, hx, hitem, -⟩ := of_vacant_openRequest (congrArg Prod.snd ho)
          simp only [List.mem_cons, List.not_mem_nil, or_false] at hg
          rcases hg with rfl | rfl
          · cases hi
          · obtain rfl := Option.some.inj hi
            exact ⟨_, x, hx, hitem⟩
      · cases hg
  | claimed call item' component handle listener =>
      left
      unfold claimFrames at hg
      split at hg
      · exact congrArg some (item?_of_mem_launchFrames hg hi)
      · exact congrArg some (item?_of_mem_launchFrames hg hi)
      · cases hg
  | layout l sequel hs =>
      obtain rfl := List.mem_singleton.1 hg
      cases sequel with
      | commit r => exact .inl hi
      | background => cases hi
      | reply => cases hi
  | script step rest =>
      simp only [List.mem_cons, List.not_mem_nil, or_false] at hg
      rcases hg with rfl | rfl | rfl <;> cases hi
  | dequeued remaining count hq hl =>
      simp only [List.mem_cons, List.not_mem_nil, or_false] at hg
      rcases hg with rfl | rfl <;> cases hi
  | served hq hl =>
      simp only [List.mem_cons, List.not_mem_nil, or_false] at hg
      rcases hg with rfl | rfl <;> cases hi
  | _ =>
      obtain rfl := List.mem_singleton.1 hg
      cases hi

theorem mentions_turn (ht : Turn s i f s') (h : s'.Mentions item) :
    s'.Knows item ∨ s.Mentions item ∨ f.item? = some item := by
  cases h with
  | register h => exact .inl h
  | @holder k y _ hy hi =>
      right
      rw [ht.store] at hy
      rcases Store.item_of_acts hy hi with ⟨x, hx, hxi⟩ | ⟨a, ha, hdescribes | hacquires⟩
      · exact .inl (.holder hx hxi)
      · cases a with
        | change k' c =>
            cases c with
            | describe item' =>
                simp only [Store.Act.describes?] at hdescribes
                split at hdescribes
                · obtain rfl := Option.some.inj hdescribes
                  exact .inl (.register ((licensed ha).2 _ rfl))
                · cases hdescribes
            | _ => cases hdescribes
        | _ => cases hdescribes
      · obtain ⟨p, policy, factory, rfl⟩ := hacquires
        exact .inl (.register (licensed ha).1)
  | @frame j g _ hg hi =>
      right
      rcases ht.mem_work hg with hg | hg | ⟨-, fs, hfs, hg, -⟩
      · exact .inl (.frame hg hi)
      · cases hg <;> cases hi
      · rcases item?_of_ensues hfs hg hi with hf | ⟨k, x, hx, hxi⟩
        · exact .inr hf
        · exact .inl (.holder hx hxi)

theorem mentions_off (hf : s.top? i = some f) :
    ((s.off i).Mentions item ∨ f.item? = some item) → s.Mentions item := by
  rintro (h | h)
  · cases h with
    | register h => exact .register h
    | holder hx hi => exact .holder hx hi
    | @frame j _ _ hg hi => exact .frame ((work_off_suffix hf j).subset hg) hi
  · refine .frame (j := i) (f := f) (mem_work_of_top? hf ?_) h
    cases f with
    | serve q => cases h
    | _ => rfl

/-! ## Runs -/

/-- A session is catalogued if it mentions nothing but what a catalogued one with as many
descriptors does. -/
theorem Catalogued.of_mentions (hs : s.Catalogued) (hcount : s'.issuedItems = s.issuedItems)
    (h : ∀ item, s'.Mentions item → s.Mentions item) : s'.Catalogued := by
  obtain ⟨table, htable⟩ := hs
  exact ⟨table, fun item hi => hcount ▸ htable item (h item hi)⟩

theorem Catalogued.next? {m : Moment} (hs : s.Catalogued) (h : s.next? m = some s') :
    s'.Catalogued := by
  cases happens_of_next? h with
  | @give j c hj =>
      refine hs.of_mentions rfl fun item hi => ?_
      cases hi with
      | register h => exact .register h
      | holder hx hi => exact .holder hx hi
      | @frame k g _ hg hi =>
          rcases mem_work_push hg with hg | hg
          · simp only [List.mem_cons, List.not_mem_nil, or_false] at hg
            rcases hg with rfl | rfl <;> cases hi
          · exact .frame hg hi
  | @carry j f _ hf ht =>
      have hold : ∀ item, (s.off j).Mentions item ∨ f.item? = some item → s.Mentions item :=
        fun item => mentions_off hf
      rcases ht.items with ⟨hcount, hknows⟩ | ⟨hcount, new, hnew, hknows⟩
      · refine hs.of_mentions hcount fun item hi => hold item ?_
        rcases mentions_turn ht hi with h | h
        · exact .inl (.register (hknows item h))
        · exact h
      · -- the new descriptor gets the next entry of the table
        obtain ⟨table, htable⟩ := hs
        refine ⟨fun n => if n = s.issuedItems then new.value else table n, fun item hi => ?_⟩
        have hcases : s.Mentions item ∨ item = new := by
          rcases mentions_turn ht hi with h | h
          · rcases hknows item h with h | h
            · exact .inl (hold item (.inl (.register h)))
            · exact .inr h
          · exact .inl (hold item h)
        have hissued : (s.off j).issuedItems = s.issuedItems := rfl
        rw [hcount, hissued]
        rcases hcases with h | rfl
        · obtain ⟨hlt, hvalue⟩ := htable item h
          exact ⟨Nat.lt_succ_of_lt hlt, hvalue.trans (if_neg (Nat.ne_of_lt hlt)).symm⟩
        · rw [hissued] at hnew
          exact ⟨by omega, (if_pos hnew).symm⟩
  | look k =>
      have hl := s.like_view? k
      refine hs.of_mentions hl.issuedItems fun item hi => ?_
      cases hi with
      | register h =>
          rw [Knows, hl.items] at h
          exact .register h
      | holder hx hi =>
          rw [hl.store] at hx
          exact .holder hx hi
      | @frame j g _ hg hi => exact .frame (hl.work j ▸ hg) hi

theorem catalogued_ofProgram (p : Program) : (ofProgram p).Catalogued := by
  refine ⟨fun _ => { content := .view 0 }, fun item hi => ?_⟩
  cases hi with
  | register h =>
      obtain ⟨name, hn⟩ := h
      cases hn
  | holder hx hi => cases hx
  | frame hf hi =>
      rw [work_ofProgram] at hf
      cases hf

theorem Reachable.catalogued (h : s.Reachable) : s.Catalogued := by
  obtain ⟨p, ms, hms⟩ := h
  exact follow?_induction (fun _ _ _ h hs => hs.next? h) hms (catalogued_ofProgram p)

end Session

end Recycler
