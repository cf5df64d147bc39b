import Desk.Sessions.Store

/-!
# Handoffs are single-use and sessions end

What every operation of the two stores keeps, in any order and at any times.
-/

namespace Desk.Sessions

section
variable {mac : List UInt8 → String → String}

/-! ## What leaves the handoffs -/

/-- Handoffs are only taken out, and what is newly finished was taken out for `why`. -/
structure Moves (why : String → Time → HandoffVerdict → Prop) (ls ls' : LaunchStore) : Prop where
  key : ls'.key = ls.key
  given : ∀ h ends, ls'.given.get? h = some ends → ls.given.get? h = some ends
  finished : ∀ h how, ls'.finished.get? h = some how → ls.finished.get? h = some how ∨
    ∃ ends, ls.given.get? h = some ends ∧ ls'.given.get? h = none ∧ why h ends how

variable {why why' : String → Time → HandoffVerdict → Prop} {ls ls' ls'' : LaunchStore}

theorem Moves.refl (ls : LaunchStore) : Moves why ls ls := ⟨rfl, fun _ _ h => h, fun _ _ h => Or.inl h⟩

theorem Moves.none (h : Moves why ls ls') {key : String} (hnone : ls.given.get? key = Option.none) :
    ls'.given.get? key = Option.none := by
  cases hget : ls'.given.get? key with
  | none => rfl
  | some ends =>
    rw [h.given key ends hget] at hnone
    cases hnone

theorem Moves.trans (h₁ : Moves why ls ls') (h₂ : Moves why ls' ls'') : Moves why ls ls'' := by
  refine ⟨h₂.key.trans h₁.key, fun h ends hget => h₁.given h ends (h₂.given h ends hget), fun h how hfin => ?_⟩
  rcases h₂.finished h how hfin with hold | ⟨ends, hgiven, hgone, hwhy⟩
  · rcases h₁.finished h how hold with hold | ⟨ends, hgiven, hgone, hwhy⟩
    · exact Or.inl hold
    · exact Or.inr ⟨ends, hgiven, h₂.none hgone, hwhy⟩
  · exact Or.inr ⟨ends, h₁.given h ends hgiven, hgone, hwhy⟩

theorem Moves.mono (h : Moves why ls ls') (hmono : ∀ k ends how, why k ends how → why' k ends how) :
    Moves why' ls ls' := by
  refine ⟨h.key, h.given, fun k how hfin => ?_⟩
  rcases h.finished k how hfin with hold | ⟨ends, hgiven, hgone, hwhy⟩
  · exact Or.inl hold
  · exact Or.inr ⟨ends, hgiven, hgone, hmono k ends how hwhy⟩

/-- One handoff is taken out and recorded. -/
theorem Moves.one {key : String} {ends : Time} {how : HandoffVerdict} (hget : ls.given.get? key = some ends)
    (hwhy : why key ends how) : Moves why ls ((ls.delete key).finishLocked key how) := by
  refine ⟨rfl, fun h ends' hdel => (Table.get?_of_delete hdel).2, fun h how' hfin => ?_⟩
  rcases Ring.get?_of_record hfin with ⟨rfl, rfl⟩ | ⟨_, hold⟩
  · exact Or.inr ⟨ends, hget, Table.get?_delete_self _ _, hwhy⟩
  · exact Or.inl hold

/-! ## The sweep -/

theorem lapse_moves (now : Time) (keys : List String) (ls : LaunchStore) :
    Moves (fun _ ends how => how = .expired ∧ ends < now) ls (ls.lapse now keys) := by
  induction keys generalizing ls with
  | nil => exact Moves.refl ls
  | cons key rest ih =>
    unfold LaunchStore.lapse
    split
    · exact ih ls
    · rename_i ends hget
      split
      · rename_i hpast
        exact (Moves.one hget ⟨rfl, hpast⟩).trans (ih _)
      · exact ih ls

/-- A handoff the loop came to is in its window or gone. -/
theorem lapse_open (now : Time) {keys : List String} {ls : LaunchStore} {key : String} (hmem : key ∈ keys) {ends : Time}
    (hget : (ls.lapse now keys).given.get? key = some ends) : now ≤ ends := by
  induction keys generalizing ls with
  | nil => cases hmem
  | cons first rest ih =>
    rcases List.mem_cons.mp hmem with rfl | hrest
    · unfold LaunchStore.lapse at hget
      split at hget
      · rename_i hnone
        rw [(lapse_moves now rest ls).none hnone] at hget
        cases hget
      · rename_i ends' hends
        split at hget
        · rw [(lapse_moves now rest _).none (Table.get?_delete_self ls.given key)] at hget
          cases hget
        · rename_i hopen
          have := (lapse_moves now rest ls).given key ends hget
          rw [hends] at this
          cases this
          exact Nat.le_of_not_lt hopen
    · unfold LaunchStore.lapse at hget
      split at hget
      · exact ih hrest hget
      · split at hget
        · exact ih hrest hget
        · exact ih hrest hget

theorem earliest_none {given : Table Time} {keys : List String} (h : earliest given keys = none) :
    ∀ key ∈ keys, ∀ ends, given.get? key ≠ some ends := by
  induction keys with
  | nil => intro key hkey; cases hkey
  | cons first rest ih =>
    intro key hkey ends hget
    unfold earliest at h
    split at h
    · rename_i hnone
      rcases List.mem_cons.mp hkey with rfl | hkey
      · rw [hnone] at hget; cases hget
      · exact ih h key hkey ends hget
    · cases h
    · split at h <;> cases h

theorem earliest_spec {given : Table Time} {keys : List String} {oldest : String} {least : Time}
    (h : earliest given keys = some (oldest, least)) :
    given.get? oldest = some least ∧ ∀ key ∈ keys, ∀ ends, given.get? key = some ends → least ≤ ends := by
  induction keys generalizing oldest least with
  | nil => cases h
  | cons key rest ih =>
    unfold earliest at h
    split at h
    · rename_i hnone
      obtain ⟨hget, hle⟩ := ih h
      refine ⟨hget, fun k hk ends hends => ?_⟩
      rcases List.mem_cons.mp hk with rfl | hk
      · rw [hnone] at hends; cases hends
      · exact hle k hk ends hends
    · rename_i ends hends hnone
      cases h
      refine ⟨hends, fun k hk ends' hends' => ?_⟩
      rcases List.mem_cons.mp hk with rfl | hk
      · rw [hends] at hends'; cases hends'; exact Nat.le_refl _
      · exact absurd hends' (earliest_none hnone k hk ends')
    · rename_i ends oldest' least' hends hfound
      obtain ⟨hget, hle⟩ := ih hfound
      split at h
      · rename_i hlt
        cases h
        refine ⟨hget, fun k hk ends' hends' => ?_⟩
        rcases List.mem_cons.mp hk with rfl | hk
        · rw [hends] at hends'; cases hends'; exact Nat.le_of_lt hlt
        · exact hle k hk ends' hends'
      · rename_i hge
        cases h
        refine ⟨hends, fun k hk ends' hends' => ?_⟩
        rcases List.mem_cons.mp hk with rfl | hk
        · rw [hends] at hends'; cases hends'; exact Nat.le_refl _
        · exact Nat.le_trans (Nat.le_of_not_lt hge) (hle k hk ends' hends')

/-- Full, the second loop takes the earliest handoff and no other; else none. -/
theorem evict_spec (range : Iteration) {ls : LaunchStore} (hsmall : ls.given.size ≤ maxLaunches) :
    (ls.given.size < maxLaunches ∧ ls.evict range ls.given.size = ls) ∨
    ls.given.size = maxLaunches ∧ ∃ oldest least, ls.given.get? oldest = some least ∧
      (∀ key ends, ls.given.get? key = some ends → least ≤ ends) ∧
      ls.evict range ls.given.size = (ls.delete oldest).finishLocked oldest .expired := by
  have stops : ∀ rounds (l : LaunchStore), l.given.size < maxLaunches → l.evict range rounds = l := by
    intro rounds l hl
    cases rounds with
    | zero => rfl
    | succ rounds => rw [LaunchStore.evict, if_pos hl]
  rcases Nat.lt_or_eq_of_le hsmall with hlt | hfull
  · exact Or.inl ⟨hlt, stops _ _ hlt⟩
  · refine Or.inr ⟨hfull, ?_⟩
    have hevict : ls.evict range ls.given.size = ls.evict range (31 + 1) := by rw [hfull]; rfl
    have visited : ∀ key ends, ls.given.get? key = some ends → key ∈ range.keys ls.given := by
      intro key ends hget
      refine (range.perm ls.given).mem_iff.mpr (Classical.byContradiction fun hn => ?_)
      rw [Table.get?_eq_none.mpr hn] at hget
      cases hget
    rw [hevict, LaunchStore.evict, if_neg (by omega)]
    cases hearly : earliest ls.given (range.keys ls.given) with
    | none =>
      have hempty : AList.keys ls.given = [] := by
        refine List.eq_nil_iff_forall_not_mem.mpr fun key hkey => ?_
        cases hget : ls.given.get? key with
        | none => exact Table.get?_eq_none.mp hget hkey
        | some ends => exact earliest_none hearly key (visited key ends hget) ends hget
      have hzero : ls.given.size = 0 := by rw [Table.size, hempty]; rfl
      rw [hfull] at hzero
      cases hzero
    | some found =>
      obtain ⟨oldest, least⟩ := found
      obtain ⟨hget, hle⟩ := earliest_spec hearly
      refine ⟨oldest, least, hget, fun key ends hkey => hle key (visited key ends hkey) ends hkey, stops _ _ ?_⟩
      have hsize : ls.given.size = (ls.given.delete oldest).size + 1 := (Table.size_delete hget).symm
      show (ls.given.delete oldest).size < maxLaunches
      omega

/-- The sweep takes a handoff out past its window, or the earliest of a full map. -/
theorem evict_moves (range : Iteration) {ls : LaunchStore} (hsmall : ls.given.size ≤ maxLaunches) :
    Moves (fun _ _ how => how = .expired) ls (ls.evict range ls.given.size) ∧
      (ls.evict range ls.given.size).given.size < maxLaunches := by
  rcases evict_spec range hsmall with ⟨hlt, heq⟩ | ⟨hfull, oldest, least, hget, _, heq⟩
  · rw [heq]
    exact ⟨Moves.refl ls, hlt⟩
  · rw [heq]
    refine ⟨Moves.one hget rfl, ?_⟩
    have hsize := Table.size_delete hget
    show (ls.given.delete oldest).size < maxLaunches
    omega

/-! ## Spending -/

/-- All that spending one value can do. -/
theorem spend_cases (now : Time) (value : String) (ls : LaunchStore) :
    ((value = "" ∨ ls.given.get? (ls.handle mac value) = none) ∧ (ls.spend mac now value).2 = ls ∧
      ((ls.spend mac now value).1 = .unknown ∨
        ls.finished.get? (ls.handle mac value) = some (ls.spend mac now value).1)) ∨
    ∃ ends, value ≠ "" ∧ ls.given.get? (ls.handle mac value) = some ends ∧
      ((ends < now ∧ ls.spend mac now value =
        (.expired, (ls.delete (ls.handle mac value)).finishLocked (ls.handle mac value) .expired)) ∨
      (now ≤ ends ∧ ls.spend mac now value =
        (.accepted, (ls.delete (ls.handle mac value)).finishLocked (ls.handle mac value) .spent))) := by
  unfold LaunchStore.spend
  by_cases hvalue : value = ""
  · rw [if_pos hvalue]
    exact Or.inl ⟨Or.inl hvalue, rfl, Or.inl rfl⟩
  · rw [if_neg hvalue]
    dsimp only
    cases hget : ls.given.get? (ls.handle mac value) with
    | none =>
      refine Or.inl ⟨Or.inr rfl, rfl, ?_⟩
      cases hfin : ls.finished.get? (ls.handle mac value) with
      | none => exact Or.inl rfl
      | some how => exact Or.inr rfl
    | some ends =>
      refine Or.inr ⟨ends, hvalue, rfl, ?_⟩
      by_cases hpast : ends < now
      · exact Or.inl ⟨hpast, if_pos hpast⟩
      · exact Or.inr ⟨Nat.le_of_not_lt hpast, if_neg hpast⟩

/-- Why a handoff is finished where a request's cookies are spent. -/
def Spends (mac : List UInt8 → String → String) (now : Time) (key : List UInt8) (cookies : List String) (accepted : Bool)
    (h : String) (ends : Time) (how : HandoffVerdict) : Prop :=
  (how = .expired ∧ ends < now) ∨
    (how = .spent ∧ now ≤ ends ∧ accepted = true ∧ ∃ value ∈ cookies, value ≠ "" ∧ mac key value = h)

theorem spend_moves (now : Time) (value : String) (ls : LaunchStore) :
    Moves (Spends mac now ls.key [value] ((ls.spend mac now value).1 == .accepted)) ls (ls.spend mac now value).2 := by
  rcases spend_cases now value ls with ⟨_, heq, _⟩ | ⟨ends, hvalue, hget, ⟨hpast, heq⟩ | ⟨hopen, heq⟩⟩
  · rw [heq]
    exact Moves.refl ls
  · rw [heq]
    exact Moves.one hget (Or.inl ⟨rfl, hpast⟩)
  · rw [heq]
    exact Moves.one hget (Or.inr ⟨rfl, hopen, rfl, value, List.mem_singleton_self value, hvalue, rfl⟩)

/-- A value presented is live no more. -/
theorem spend_gone (now : Time) {value : String} (ls : LaunchStore) (hvalue : value ≠ "") :
    (ls.spend mac now value).2.given.get? (ls.handle mac value) = none := by
  rcases spend_cases now value ls with ⟨hor, heq, _⟩ | ⟨ends, _, _, ⟨_, heq⟩ | ⟨_, heq⟩⟩
  · rw [heq]
    exact hor.resolve_left hvalue
  · rw [heq]
    exact Table.get?_delete_self _ _
  · rw [heq]
    exact Table.get?_delete_self _ _

/-- What no store of handoffs records of one it finished with. -/
def LaunchStore.Over (ls : LaunchStore) : Prop := ∀ h how, ls.finished.get? h = some how → how = .spent ∨ how = .expired

theorem Moves.past {now : Time} {key : List UInt8} {cookies : List String} {accepted : Bool}
    (h : Moves (Spends mac now key cookies accepted) ls ls') (hover : ls.Over) : ls'.Over := by
  intro k how hfin
  rcases h.finished k how hfin with hold | ⟨_, _, _, ⟨rfl, _⟩ | ⟨rfl, _⟩⟩
  · exact hover k how hold
  · exact Or.inr rfl
  · exact Or.inl rfl

theorem spend_accepted {now : Time} {value : String} {ls : LaunchStore} (hover : ls.Over)
    (h : (ls.spend mac now value).1 = .accepted) :
    value ≠ "" ∧ ∃ ends, ls.given.get? (ls.handle mac value) = some ends ∧ now ≤ ends := by
  rcases spend_cases now value ls with ⟨_, _, hun | hfin⟩ | ⟨ends, hvalue, hget, ⟨_, heq⟩ | ⟨hopen, _⟩⟩
  · rw [hun] at h
    cases h
  · rw [h] at hfin
    rcases hover _ _ hfin with hbad | hbad <;> cases hbad
  · rw [heq] at h
    cases h
  · exact ⟨hvalue, ends, hget, hopen⟩

theorem Spends.mono {now : Time} {key : List UInt8} {cookies more : List String} {accepted accepted' : Bool} {h : String}
    {ends : Time} {how : HandoffVerdict} (hs : Spends mac now key cookies accepted h ends how)
    (hsub : ∀ value ∈ cookies, value ∈ more) (hacc : accepted = true → accepted' = true) :
    Spends mac now key more accepted' h ends how := by
  rcases hs with hexpired | ⟨hspent, hopen, ha, value, hmem, hv⟩
  · exact Or.inl hexpired
  · exact Or.inr ⟨hspent, hopen, hacc ha, value, hsub value hmem, hv⟩

theorem spendPresented_moves (now : Time) (cookies : List String) (ls : LaunchStore) :
    Moves (Spends mac now ls.key cookies (spendPresented mac now cookies ls).1) ls (spendPresented mac now cookies ls).2 := by
  induction cookies generalizing ls with
  | nil => exact Moves.refl ls
  | cons value rest ih =>
    have hfirst := @spend_moves mac now value ls
    have hrest := ih (ls.spend mac now value).2
    rw [hfirst.key] at hrest
    refine (hfirst.mono fun k ends how hs => ?_).trans (hrest.mono fun k ends how hs => ?_)
    · refine hs.mono (fun v hv => ?_) fun ha => ?_
      · exact List.mem_cons.mpr (Or.inl (List.mem_singleton.mp hv))
      · exact Bool.or_eq_true_iff.mpr (Or.inl ha)
    · refine hs.mono (fun v hv => List.mem_cons_of_mem _ hv) fun ha => ?_
      exact Bool.or_eq_true_iff.mpr (Or.inr ha)

/-- No cookie of a request is live after it. -/
theorem spendPresented_gone (now : Time) {cookies : List String} (ls : LaunchStore) {value : String} (hmem : value ∈ cookies)
    (hvalue : value ≠ "") : (spendPresented mac now cookies ls).2.given.get? (mac ls.key value) = none := by
  induction cookies generalizing ls with
  | nil => cases hmem
  | cons first rest ih =>
    have hkey : (ls.spend mac now first).2.key = ls.key := (@spend_moves mac now first ls).key
    rcases List.mem_cons.mp hmem with rfl | hmem
    · exact (spendPresented_moves now rest _).none (spend_gone now ls hvalue)
    · have := ih (ls.spend mac now first).2 hmem
      rw [hkey] at this
      exact this

/-- A request whose cookies spent anything presented a live handoff. -/
theorem spendPresented_accepted {now : Time} {cookies : List String} {ls : LaunchStore} (hover : ls.Over)
    (h : (spendPresented mac now cookies ls).1 = true) :
    ∃ value ∈ cookies, value ≠ "" ∧ ∃ ends, ls.given.get? (mac ls.key value) = some ends ∧ now ≤ ends := by
  induction cookies generalizing ls with
  | nil => cases h
  | cons first rest ih =>
    have hfirst := @spend_moves mac now first ls
    rcases Bool.or_eq_true_iff.mp h with hacc | hacc
    · obtain ⟨hvalue, ends, hget, hopen⟩ := spend_accepted hover (of_decide_eq_true hacc)
      exact ⟨first, List.mem_cons_self, hvalue, ends, hget, hopen⟩
    · obtain ⟨value, hmem, hvalue, ends, hget, hopen⟩ := ih (hfirst.past hover) hacc
      rw [hfirst.key] at hget
      exact ⟨value, List.mem_cons_of_mem _ hmem, hvalue, ends, hfirst.given _ _ hget, hopen⟩

theorem mem_presented {ls : LaunchStore} {now : Time} {cookies : List String} {h : String} :
    h ∈ ls.presented mac now cookies ↔
      ∃ ends, ls.given.get? h = some ends ∧ now ≤ ends ∧ ∃ value ∈ cookies, value ≠ "" ∧ mac ls.key value = h := by
  unfold LaunchStore.presented
  rw [List.mem_filter, Bool.and_eq_true, List.any_eq_true]
  constructor
  · rintro ⟨_, ⟨value, hmem, hv⟩, hopen⟩
    rw [Bool.and_eq_true, bne_iff_ne, beq_iff_eq] at hv
    cases hget : ls.given.get? h with
    | none => rw [hget] at hopen; cases hopen
    | some ends =>
      rw [hget] at hopen
      exact ⟨ends, rfl, of_decide_eq_true hopen, value, hmem, hv.1, hv.2⟩
  · rintro ⟨ends, hget, hopen, value, hmem, hvalue, hv⟩
    refine ⟨?_, ⟨value, hmem, ?_⟩, ?_⟩
    · refine Classical.byContradiction fun hn => ?_
      rw [Table.get?_eq_none.mpr hn] at hget
      cases hget
    · rw [Bool.and_eq_true, bne_iff_ne, beq_iff_eq]
      exact ⟨hvalue, hv⟩
    · rw [hget]
      exact decide_eq_true hopen

theorem nodup_presented (ls : LaunchStore) (now : Time) (cookies : List String) : (ls.presented mac now cookies).Nodup :=
  ls.given.keys_nodup.filter _

/-! ## Minting -/

/-- All that `createCommitting` can do, whatever the commit. -/
theorem createCommitting_cases (now : Time) (id subject : String) (issuer : Option String)
    (commit : LaunchStore → Bool × LaunchStore) (st : SessionStore) (ls : LaunchStore) :
    (maxSessions ≤ st.live.size ∧
      createCommitting mac now id subject issuer commit st ls = (.error .tooManySessions, st, ls)) ∨
    (st.live.size < maxSessions ∧ (commit ls).1 = false ∧
      createCommitting mac now id subject issuer commit st ls = (.error .handoffTaken, st, (commit ls).2)) ∨
    st.live.size < maxSessions ∧ (commit ls).1 = true ∧ ∃ opened : Session, opened.expires = 0 ∧
      createCommitting mac now id subject issuer commit st ls =
        (.ok id, { st with live := st.live.set (st.handle mac id) opened }, (commit ls).2) := by
  unfold createCommitting
  by_cases hfull : maxSessions ≤ st.live.size
  · exact Or.inl ⟨hfull, if_pos hfull⟩
  · rw [if_neg hfull]
    refine Or.inr ?_
    cases hcommit : (commit ls).1 with
    | false => exact Or.inl ⟨Nat.lt_of_not_le hfull, rfl, by simp [hcommit]⟩
    | true =>
      refine Or.inr ⟨Nat.lt_of_not_le hfull, rfl, _, ?_, by simp [hcommit]; rfl⟩
      rfl

/-! ## What happens to a session -/

/-- Sessions only end, and none past its end is renewed. -/
structure Ends (now : Time) (st st' : SessionStore) : Prop where
  key : st'.key = st.key
  held : ∀ h s', st'.live.get? h = some s' → ∃ s, st.live.get? h = some s ∧
    (s'.expires = s.expires ∨ s.expires ≠ 0 ∧ now < s.expires)

theorem Ends.refl (now : Time) (st : SessionStore) : Ends now st st := ⟨rfl, fun _ s h => ⟨s, h, Or.inl rfl⟩⟩

theorem Ends.size {now : Time} {st st' : SessionStore} (h : Ends now st st') : st'.live.size ≤ st.live.size := by
  refine Table.size_le_size fun k s' hget => ?_
  obtain ⟨s, hs, _⟩ := h.held k s' hget
  exact Table.has_eq_true.mpr ⟨s, hs⟩

theorem Ends.delete (now : Time) (st : SessionStore) (h : String) : Ends now st { st with live := st.live.delete h } :=
  ⟨rfl, fun _ s hget => ⟨s, (Table.get?_of_delete hget).2, Or.inl rfl⟩⟩

theorem Ends.set {now : Time} {st : SessionStore} {h : String} {s s' : Session} (hget : st.live.get? h = some s)
    (hnew : s'.expires = s.expires ∨ s.expires ≠ 0 ∧ now < s.expires) :
    Ends now st { st with live := st.live.set h s' } := by
  refine ⟨rfl, fun k t ht => ?_⟩
  have ht' : (if k = h then some s' else st.live.get? k) = some t := (Table.get?_set st.live h k s').symm.trans ht
  by_cases hk : k = h
  · rw [if_pos hk] at ht'
    cases ht'
    exact ⟨s, by rw [hk]; exact hget, hnew⟩
  · rw [if_neg hk] at ht'
    exact ⟨t, ht', Or.inl rfl⟩

theorem lookup_ends (now : Time) (id : String) (st : SessionStore) : Ends now st (st.lookup mac now id).2 := by
  unfold SessionStore.lookup
  split
  · exact Ends.refl now st
  · dsimp only
    cases hget : st.live.get? (st.handle mac id) with
    | none => exact Ends.refl now st
    | some got =>
      dsimp only
      split
      · exact Ends.refl now st
      · rename_i hbounded
        split
        · exact Ends.delete now st _
        · rename_i hopen
          exact Ends.set hget (Or.inr ⟨hbounded, Nat.lt_of_not_le hopen⟩)

theorem revoke_ends (now : Time) (id : String) (st : SessionStore) : Ends now st (st.revoke mac id).2 := by
  unfold SessionStore.revoke
  dsimp only
  cases st.live.get? (st.handle mac id) with
  | none => exact Ends.refl now st
  | some got => exact Ends.delete now st _

theorem password_ends (now : Time) (id : String) (st : SessionStore) : Ends now st (st.password mac id).2 := by
  unfold SessionStore.password
  cases hget : st.live.get? (st.handle mac id) with
  | none => exact Ends.refl now st
  | some got => exact Ends.set hget (Or.inl rfl)

theorem expireVerified_ends (now : Time) (h : String) (st : SessionStore) : Ends now st (st.expireVerified now h) := by
  unfold SessionStore.expireVerified
  cases hget : st.live.get? h with
  | none => exact Ends.refl now st
  | some held =>
    dsimp only
    split
    · exact Ends.refl now st
    · exact Ends.delete now st _

theorem close_ends (now : Time) (st : SessionStore) : Ends now st st.close := by
  refine ⟨rfl, fun h s hget => ?_⟩
  rw [show st.close.live.get? h = none from Table.get?_empty h] at hget
  cases hget

/-- A lookup answers no session that has ended. -/
theorem lookup_none {now : Time} {id : String} {st : SessionStore}
    (h : ∀ s, st.live.get? (st.handle mac id) = some s → s.expires ≠ 0 ∧ s.expires ≤ now) :
    (st.lookup mac now id).1 = none := by
  unfold SessionStore.lookup
  split
  · rfl
  · dsimp only
    cases hget : st.live.get? (st.handle mac id) with
    | none => rfl
    | some got =>
      obtain ⟨hbounded, hpast⟩ := h got hget
      dsimp only
      rw [if_neg hbounded, if_pos hpast]

end

end Desk.Sessions
