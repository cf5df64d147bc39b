import Desk.Lib.Run
import Desk.Sessions.StoreSound

/-!
# Handoffs are single-use

What every step of the two stores keeps, and from it every run: the bounds, the one
session of a handoff, the reasons recorded, and the end of what has ended.
-/

namespace Desk.Sessions

section
variable {mac : List UInt8 → String → String}

/-! ## What every run keeps -/

/-- No session was bought with this handoff. -/
def World.Unspent (w : World) (h : String) : Prop := ∀ m ∈ w.minted, h ∉ m.handoffs

/-- A handoff given up for room was the earliest of a full store, all in their windows. -/
def Displaced.ForRoom (d : Displaced) : Prop :=
  d.among.length = maxLaunches ∧ (∀ e ∈ d.among, d.time ≤ e.2) ∧
    ∃ ends, (d.handoff, ends) ∈ d.among ∧ ∀ e ∈ d.among, ends ≤ e.2

def World.WasDisplaced (w : World) (h : String) : Prop := ∃ d ∈ w.displaced, d.handoff = h

/-- The sessions fit, and a sign-in under way has no end yet. -/
structure Room (w : World) : Prop where
  room : w.sessions.live.size ≤ maxSessions
  known : ∀ h s, w.sessions.live.get? h = some s → h ∈ w.known
  begun : ∀ h ∈ w.begun, h ∈ w.known ∧ ∀ s, w.sessions.live.get? h = some s → s.expires = 0

/-- A handoff is given, or finished for the reason recorded. -/
structure Once (w : World) : Prop where
  small : w.launches.given.size ≤ maxLaunches
  past : w.launches.Over
  issued : (w.issued.map (·.1)).Nodup
  given : ∀ h ends, w.launches.given.get? h = some ends →
    (∃ t, (h, t) ∈ w.issued ∧ ends = t + launchWindow) ∧ w.launches.finished.get? h = none ∧ w.Unspent h
  finished : ∀ h how, w.launches.finished.get? h = some how → h ∈ w.issued.map (·.1)
  spent : ∀ h, w.launches.finished.get? h = some .spent → ∃ m ∈ w.minted, h ∈ m.handoffs
  expired : ∀ h, w.launches.finished.get? h = some .expired → w.Unspent h ∧
    ((∃ t, (h, t) ∈ w.issued ∧ t + launchWindow < w.now) ∨ w.WasDisplaced h)
  minted : ∀ m ∈ w.minted, m.handoffs ≠ [] ∧ ∀ h ∈ m.handoffs, ∃ t, (h, t) ∈ w.issued ∧ m.time ≤ t + launchWindow
  once : (w.minted.flatMap (·.handoffs)).Nodup
  displaced : ∀ d ∈ w.displaced, d.ForRoom

theorem Room.ends {w : World} {st : SessionStore} (h : Room w) (he : Ends w.now w.sessions st) :
    Room { w with sessions := st } := by
  refine ⟨Nat.le_trans he.size h.room, fun k s hget => ?_, fun k hk => ?_⟩
  · obtain ⟨s', hs', _⟩ := he.held k s hget
    exact h.known k s' hs'
  · obtain ⟨hknown, hzero⟩ := h.begun k hk
    refine ⟨hknown, fun s hget => ?_⟩
    obtain ⟨s', hs', hsame | ⟨hne, _⟩⟩ := he.held k s hget
    · exact hsame.trans (hzero s' hs')
    · exact absurd (hzero s' hs') hne

/-- A session is opened under a handle not known. -/
theorem Room.opened {w : World} {h : String} {s : Session} {begun : List String} (hr : Room w)
    (hroom : w.sessions.live.size < maxSessions) (hfresh : h ∉ w.known) (hzero : s.expires = 0)
    (hbegun : ∀ k ∈ begun, k = h ∨ k ∈ w.begun) :
    Room { w with sessions := { w.sessions with live := w.sessions.live.set h s }, known := h :: w.known, begun } := by
  have written : ∀ k t, (w.sessions.live.set h s).get? k = some t →
      (k = h ∧ t = s) ∨ k ≠ h ∧ w.sessions.live.get? k = some t := by
    intro k t hget
    rw [Table.get?_set] at hget
    by_cases hk : k = h
    · rw [if_pos hk] at hget
      cases hget
      exact Or.inl ⟨hk, rfl⟩
    · rw [if_neg hk] at hget
      exact Or.inr ⟨hk, hget⟩
  refine ⟨?_, fun k t hget => ?_, fun k hk => ?_⟩
  · exact Nat.le_trans (Table.size_set_le _ _ _) hroom
  · rcases written k t hget with ⟨rfl, _⟩ | ⟨_, hold⟩
    · exact List.mem_cons_self
    · exact List.mem_cons_of_mem _ (hr.known k t hold)
  · rcases hbegun k hk with rfl | hold
    · refine ⟨List.mem_cons_self, fun t hget => ?_⟩
      rcases written k t hget with ⟨_, rfl⟩ | ⟨hne, _⟩
      · exact hzero
      · exact absurd rfl hne
    · obtain ⟨hknown, hz⟩ := hr.begun k hold
      refine ⟨List.mem_cons_of_mem _ hknown, fun t hget => ?_⟩
      rcases written k t hget with ⟨_, rfl⟩ | ⟨_, hlive⟩
      · exact hzero
      · exact hz t hlive

/-- Handoffs that lapsed or were displaced leave the reasons right. -/
theorem Once.moved {why : String → Time → HandoffVerdict → Prop} {w : World} {ls : LaunchStore} {displaced : List Displaced}
    (h : Once w) (hm : Moves why w.launches ls) (hnew : ∀ d ∈ displaced, d.ForRoom)
    (hold : ∀ d ∈ w.displaced, d ∈ displaced)
    (hwhy : ∀ k ends how, w.launches.given.get? k = some ends → ls.given.get? k = none → why k ends how →
      how = .expired ∧ (ends < w.now ∨ ∃ d ∈ displaced, d.handoff = k)) :
    Once { w with launches := ls, displaced } where
  small := by
    refine Nat.le_trans (Table.size_le_size fun k ends hget => ?_) h.small
    exact Table.has_eq_true.mpr ⟨ends, hm.given k ends hget⟩
  past k how hfin := by
    rcases hm.finished k how hfin with hbefore | ⟨ends, hgiven, hgone, hw⟩
    · exact h.past k how hbefore
    · exact Or.inr (hwhy k ends how hgiven hgone hw).1
  issued := h.issued
  given k ends hget := by
    obtain ⟨hissued, hfin, hunspent⟩ := h.given k ends (hm.given k ends hget)
    refine ⟨hissued, ?_, hunspent⟩
    cases hnow : ls.finished.get? k with
    | none => rfl
    | some how =>
      rcases hm.finished k how hnow with hbefore | ⟨_, _, hgone, _⟩
      · rw [hfin] at hbefore
        cases hbefore
      · rw [hget] at hgone
        cases hgone
  finished k how hfin := by
    rcases hm.finished k how hfin with hbefore | ⟨ends, hgiven, _, _⟩
    · exact h.finished k how hbefore
    · obtain ⟨⟨t, ht, _⟩, _⟩ := h.given k ends hgiven
      exact List.mem_map.mpr ⟨_, ht, rfl⟩
  spent k hfin := by
    rcases hm.finished k _ hfin with hbefore | ⟨ends, hgiven, hgone, hw⟩
    · exact h.spent k hbefore
    · cases (hwhy k ends _ hgiven hgone hw).1
  expired k hfin := by
    rcases hm.finished k _ hfin with hbefore | ⟨ends, hgiven, hgone, hw⟩
    · obtain ⟨hunspent, hlapsed | ⟨d, hd, hk⟩⟩ := h.expired k hbefore
      · exact ⟨hunspent, Or.inl hlapsed⟩
      · exact ⟨hunspent, Or.inr ⟨d, hold d hd, hk⟩⟩
    · obtain ⟨⟨t, ht, hends⟩, _, hunspent⟩ := h.given k ends hgiven
      refine ⟨hunspent, ?_⟩
      rcases (hwhy k ends _ hgiven hgone hw).2 with hpast | hdis
      · exact Or.inl ⟨t, ht, by rw [← hends]; exact hpast⟩
      · exact Or.inr hdis
  minted := h.minted
  once := h.once
  displaced := hnew

/-- A handoff is issued under a handle not issued before. -/
theorem Once.given_new {w : World} {h : String} (ho : Once w) (hroom : w.launches.given.size < maxLaunches)
    (hfresh : h ∉ w.issued.map (·.1)) :
    Once { w with
      launches := { w.launches with given := w.launches.given.set h (w.now + launchWindow) }
      issued := (h, w.now) :: w.issued } where
  small := Nat.le_trans (Table.size_set_le _ _ _) hroom
  past := ho.past
  issued := List.nodup_cons.mpr ⟨hfresh, ho.issued⟩
  given k ends hget := by
    have hset : (w.launches.given.set h (w.now + launchWindow)).get? k = some ends := hget
    rw [Table.get?_set] at hset
    by_cases hk : k = h
    · rw [if_pos hk] at hset
      cases hset
      refine ⟨⟨w.now, by rw [hk]; exact List.mem_cons_self, rfl⟩, ?_, fun m hm hmem => ?_⟩
      · cases hfin : w.launches.finished.get? k with
        | none => rfl
        | some how => exact absurd (ho.finished k how hfin) (by rw [hk]; exact hfresh)
      · obtain ⟨t, ht, _⟩ := (ho.minted m hm).2 k hmem
        exact hfresh (by rw [← hk]; exact List.mem_map.mpr ⟨_, ht, rfl⟩)
    · rw [if_neg hk] at hset
      obtain ⟨⟨t, ht, hends⟩, hfin, hunspent⟩ := ho.given k ends hset
      exact ⟨⟨t, List.mem_cons_of_mem _ ht, hends⟩, hfin, hunspent⟩
  finished k how hfin := List.mem_cons_of_mem _ (ho.finished k how hfin)
  spent := ho.spent
  expired k hfin := by
    obtain ⟨hunspent, ⟨t, ht, hpast⟩ | hdis⟩ := ho.expired k hfin
    · exact ⟨hunspent, Or.inl ⟨t, List.mem_cons_of_mem _ ht, hpast⟩⟩
    · exact ⟨hunspent, Or.inr hdis⟩
  minted m hm := by
    obtain ⟨hne, hall⟩ := ho.minted m hm
    refine ⟨hne, fun k hk => ?_⟩
    obtain ⟨t, ht, hwindow⟩ := hall k hk
    exact ⟨t, List.mem_cons_of_mem _ ht, hwindow⟩
  once := ho.once
  displaced := ho.displaced

/-- A session is bought with the live handoffs of a request. -/
theorem Once.minted_new {w : World} {session : String} {cookies : List String} (ho : Once w)
    (hacc : (spendPresented mac w.now cookies w.launches).1 = true) :
    Once { w with
      launches := (spendPresented mac w.now cookies w.launches).2
      minted := ⟨session, w.launches.presented mac w.now cookies, w.now⟩ :: w.minted } := by
  have hm := @spendPresented_moves mac w.now cookies w.launches
  have presented : ∀ k ∈ w.launches.presented mac w.now cookies,
      ∃ ends, w.launches.given.get? k = some ends ∧ w.now ≤ ends ∧
        (spendPresented mac w.now cookies w.launches).2.given.get? k = none := by
    intro k hk
    obtain ⟨ends, hget, hopen, value, hmem, hvalue, hv⟩ := mem_presented.mp hk
    exact ⟨ends, hget, hopen, by rw [← hv]; exact spendPresented_gone w.now w.launches hmem hvalue⟩
  -- a handoff that was not presented live stays as unspent as it was
  have unspent : ∀ k, w.Unspent k → k ∉ w.launches.presented mac w.now cookies →
      ∀ m ∈ (⟨session, w.launches.presented mac w.now cookies, w.now⟩ : Mint) :: w.minted, k ∉ m.handoffs := by
    intro k hun hnot m hmem
    rcases List.mem_cons.mp hmem with rfl | hmem
    · exact hnot
    · exact hun m hmem
  exact {
    small := by
      refine Nat.le_trans (Table.size_le_size fun k ends hget => ?_) ho.small
      exact Table.has_eq_true.mpr ⟨ends, hm.given k ends hget⟩
    past := hm.past ho.past
    issued := ho.issued
    given := by
      intro k ends hget
      obtain ⟨hissued, hfin, hun⟩ := ho.given k ends (hm.given k ends hget)
      refine ⟨hissued, ?_, unspent k hun fun hk => ?_⟩
      · cases hnow : (spendPresented mac w.now cookies w.launches).2.finished.get? k with
        | none => rfl
        | some how =>
          rcases hm.finished k how hnow with hbefore | ⟨_, _, hgone, _⟩
          · rw [hfin] at hbefore
            cases hbefore
          · rw [hget] at hgone
            cases hgone
      · obtain ⟨_, _, _, hgone⟩ := presented k hk
        rw [hget] at hgone
        cases hgone
    finished := by
      intro k how hfin
      rcases hm.finished k how hfin with hbefore | ⟨ends, hgiven, _, _⟩
      · exact ho.finished k how hbefore
      · obtain ⟨⟨t, ht, _⟩, _⟩ := ho.given k ends hgiven
        exact List.mem_map.mpr ⟨_, ht, rfl⟩
    spent := by
      intro k hfin
      rcases hm.finished k _ hfin with hbefore | ⟨ends, hgiven, _, ⟨hbad, _⟩ | ⟨_, hopen, _, value, hmem, hvalue, hv⟩⟩
      · obtain ⟨m, hmem, hk⟩ := ho.spent k hbefore
        exact ⟨m, List.mem_cons_of_mem _ hmem, hk⟩
      · cases hbad
      · exact ⟨_, List.mem_cons_self, mem_presented.mpr ⟨ends, hgiven, hopen, value, hmem, hvalue, hv⟩⟩
    expired := by
      intro k hfin
      rcases hm.finished k _ hfin with hbefore | ⟨ends, hgiven, _, ⟨_, hpast⟩ | ⟨hbad, _⟩⟩
      · obtain ⟨hun, hreason⟩ := ho.expired k hbefore
        refine ⟨unspent k hun fun hk => ?_, hreason⟩
        obtain ⟨ends, hgiven, _, _⟩ := presented k hk
        rw [(ho.given k ends hgiven).2.1] at hbefore
        cases hbefore
      · obtain ⟨⟨t, ht, hends⟩, _, hun⟩ := ho.given k ends hgiven
        refine ⟨unspent k hun fun hk => ?_, Or.inl ⟨t, ht, by rw [← hends]; exact hpast⟩⟩
        obtain ⟨ends', hgiven', hopen, _⟩ := presented k hk
        rw [hgiven] at hgiven'
        cases hgiven'
        exact absurd hpast (Nat.not_lt_of_le hopen)
      · cases hbad
    minted := by
      intro m hmem
      rcases List.mem_cons.mp hmem with rfl | hmem
      · refine ⟨fun hnil => ?_, fun k hk => ?_⟩
        · obtain ⟨value, hin, hvalue, ends, hget, hopen⟩ := spendPresented_accepted ho.past hacc
          have hk : mac w.launches.key value ∈ w.launches.presented mac w.now cookies :=
            mem_presented.mpr ⟨ends, hget, hopen, value, hin, hvalue, rfl⟩
          rw [show w.launches.presented mac w.now cookies = [] from hnil] at hk
          cases hk
        · obtain ⟨ends, hgiven, hopen, _⟩ := presented k hk
          obtain ⟨⟨t, ht, hends⟩, _⟩ := ho.given k ends hgiven
          exact ⟨t, ht, by rw [← hends]; exact hopen⟩
      · exact ho.minted m hmem
    once := by
      rw [List.flatMap_cons, List.nodup_append]
      refine ⟨nodup_presented _ _ _, ho.once, fun a ha b hb hab => ?_⟩
      subst hab
      obtain ⟨m, hmem, hin⟩ := List.mem_flatMap.mp hb
      obtain ⟨ends, hgiven, _, _⟩ := presented a ha
      exact (ho.given a ends hgiven).2.2 m hmem hin
    displaced := ho.displaced }


/-! ## One step -/

theorem Once.ticked {w : World} (h : Once w) (elapsed : Time) : Once { w with now := w.now + elapsed } where
  small := h.small
  past := h.past
  issued := h.issued
  given := h.given
  finished := h.finished
  spent := h.spent
  expired k hfin := by
    obtain ⟨hunspent, ⟨t, ht, hpast⟩ | hdis⟩ := h.expired k hfin
    · exact ⟨hunspent, Or.inl ⟨t, ht, Nat.lt_of_lt_of_le hpast (Nat.le_add_right _ _)⟩⟩
    · exact ⟨hunspent, Or.inr hdis⟩
  minted := h.minted
  once := h.once
  displaced := h.displaced

theorem Once.issue {w : World} (h : Once w) (range : Iteration) {value : String}
    (hfresh : w.launches.handle mac value ∉ w.issued.map (·.1)) : Once (w.issue mac range value) := by
  have hlapse := lapse_moves w.now (range.keys w.launches.given) w.launches
  have hlapsed : Once { w with launches := w.launches.lapse w.now (range.keys w.launches.given) } := by
    refine h.moved hlapse h.displaced (fun d hd => hd) fun k ends how _ _ hwhy => ?_
    exact ⟨hwhy.1, Or.inl hwhy.2⟩
  -- every handoff left by the first loop is in its window
  have hopen : ∀ e ∈ (w.launches.lapse w.now (range.keys w.launches.given)).given.entries, w.now ≤ e.2 := by
    rintro ⟨k, ends⟩ he
    have hget := Table.mem_entries.mp he
    refine lapse_open w.now ((range.perm w.launches.given).mem_iff.mpr ?_) hget
    refine Classical.byContradiction fun hn => ?_
    have hbefore := hlapse.given k ends hget
    rw [Table.get?_eq_none.mpr hn] at hbefore
    cases hbefore
  obtain ⟨hevict, hroom⟩ := evict_moves range hlapsed.small
  have hswept := @Once.moved _ _ _ (w.issue mac range value).displaced hlapsed hevict ?_
    (fun d hd => List.mem_append_right _ hd) ?_
  · have hkey : (w.launches.sweepLocked range w.now).key = w.launches.key := hevict.key.trans hlapse.key
    have hhandle : (w.launches.sweepLocked range w.now).handle mac value = w.launches.handle mac value :=
      congrArg (mac · value) hkey
    have hnew := hswept.given_new (h := w.launches.handle mac value) hroom hfresh
    show Once { w with
      launches := { w.launches.sweepLocked range w.now with
        given := (w.launches.sweepLocked range w.now).given.set
          ((w.launches.sweepLocked range w.now).handle mac value) (w.now + launchWindow) }
      issued := (w.launches.handle mac value, w.now) :: w.issued
      displaced := (w.issue mac range value).displaced }
    rw [hhandle]
    exact hnew
  · intro d hd
    rcases List.mem_append.mp hd with hd | hd
    · obtain ⟨k, hk, rfl⟩ := List.mem_map.mp hd
      obtain ⟨_, hgone⟩ := List.mem_filter.mp hk
      rcases evict_spec range hlapsed.small with ⟨_, heq⟩ | ⟨hfull, oldest, least, hget, hle, heq⟩
      · have hsame : w.launches.sweepLocked range w.now = w.launches.lapse w.now (range.keys w.launches.given) := heq
        rw [hsame, Bool.not_eq_true', Table.has, Option.isSome_eq_false_iff, Option.isNone_iff_eq_none] at hgone
        exact absurd (List.mem_filter.mp hk).1 (Table.get?_eq_none.mp hgone)
      · have hsame : w.launches.sweepLocked range w.now = _ := heq
        have hk' : k = oldest := by
          refine Classical.byContradiction fun hne => ?_
          rw [hsame, Bool.not_eq_true', Table.has, Option.isSome_eq_false_iff, Option.isNone_iff_eq_none] at hgone
          have hdel := (Table.get?_delete_ne _ hne).symm.trans
            (show ((w.launches.lapse w.now (range.keys w.launches.given)).given.delete oldest).get? k = none from hgone)
          exact absurd (List.mem_filter.mp hk).1 (Table.get?_eq_none.mp hdel)
        refine ⟨?_, hopen, least, Table.mem_entries.mpr (by rw [hk']; exact hget), ?_⟩
        · rw [← hfull]
          exact List.length_map _ |>.trans (List.length_map _).symm
        · rintro ⟨k', ends⟩ he
          exact hle k' ends (Table.mem_entries.mp he)
    · exact h.displaced d hd
  · intro k ends how hgiven hgone hwhy
    refine ⟨hwhy, Or.inr ⟨_, List.mem_append_left _ (List.mem_map.mpr ⟨k, List.mem_filter.mpr ⟨?_, ?_⟩, rfl⟩), rfl⟩⟩
    · refine Classical.byContradiction fun hn => ?_
      have hgiven' : (w.launches.lapse w.now (range.keys w.launches.given)).given.get? k = some ends := hgiven
      rw [Table.get?_eq_none.mpr hn] at hgiven'
      cases hgiven'
    · have hgone' : (w.launches.sweepLocked range w.now).given.get? k = none := hgone
      rw [Table.has, hgone']
      rfl

theorem Once.sessions {w : World} (h : Once w) (st : SessionStore) (known begun : List String) :
    Once { w with sessions := st, known, begun } :=
  ⟨h.small, h.past, h.issued, h.given, h.finished, h.spent, h.expired, h.minted, h.once, h.displaced⟩

theorem Room.launches {w : World} (h : Room w) (now : Time) (ls : LaunchStore) (issued : List (String × Time))
    (minted : List Mint) (displaced : List Displaced) :
    Room { w with now, launches := ls, issued, minted, displaced } := ⟨h.room, h.known, h.begun⟩

/-- What every step keeps. -/
def Kept (w : World) : Prop := Room w ∧ Once w

theorem Kept.exchange {w : World} (h : Kept w) {id : String} (cookies : List String)
    (hfresh : w.sessions.handle mac id ∉ w.known) : Kept (w.exchange mac id cookies) := by
  obtain ⟨hroom, honce⟩ := h
  unfold World.exchange
  rcases @createCommitting_cases mac w.now id "local user" none (spendPresented mac w.now cookies) w.sessions w.launches with
    ⟨_, heq⟩ | ⟨_, hnot, heq⟩ | ⟨hsize, hacc, opened, hzero, heq⟩
  · rw [heq]
    exact ⟨hroom, honce⟩
  · rw [heq]
    refine ⟨hroom.launches _ _ _ _ _, ?_⟩
    refine honce.moved (spendPresented_moves w.now cookies w.launches) honce.displaced (fun d hd => hd) fun k ends how _ _ hwhy => ?_
    rcases hwhy with ⟨hexp, hpast⟩ | ⟨_, _, hacc, _⟩
    · exact ⟨hexp, Or.inl hpast⟩
    · rw [hnot] at hacc
      cases hacc
  · rw [heq]
    refine ⟨?_, (honce.minted_new hacc).sessions _ _ _⟩
    exact (hroom.opened hsize hfresh hzero fun k hk => Or.inr hk).launches _ _ _ _ _

theorem Kept.create {w : World} (h : Kept w) {id subject : String} (issuer : Option String) (expiring : Bool)
    (hfresh : w.sessions.handle mac id ∉ w.known) : Kept (w.create mac id subject issuer expiring) := by
  obtain ⟨hroom, honce⟩ := h
  unfold World.create Sessions.create
  rcases @createCommitting_cases mac w.now id subject issuer (fun ls => (true, ls)) w.sessions w.launches with
    ⟨_, heq⟩ | ⟨_, hnot, _⟩ | ⟨hsize, _, opened, hzero, heq⟩
  · rw [heq]
    exact ⟨hroom, honce⟩
  · cases hnot
  · rw [heq]
    refine ⟨hroom.opened hsize hfresh hzero fun k hk => ?_, honce.sessions _ _ _⟩
    cases expiring with
    | false => exact Or.inr hk
    | true => exact List.mem_cons.mp hk

theorem Room.expiring {w : World} (h : Room w) (id name email : String) :
    Room { w with
      sessions := (w.sessions.expiring mac w.now id name email).2
      begun := w.begun.filter (· != w.sessions.handle mac id) } := by
  have hbegun : ∀ k ∈ w.begun.filter (· != w.sessions.handle mac id), k ≠ w.sessions.handle mac id ∧ k ∈ w.begun := by
    intro k hk
    obtain ⟨hin, hne⟩ := List.mem_filter.mp hk
    exact ⟨bne_iff_ne.mp hne, hin⟩
  unfold SessionStore.expiring
  cases hget : w.sessions.live.get? (w.sessions.handle mac id) with
  | none => exact ⟨h.room, h.known, fun k hk => h.begun k (hbegun k hk).2⟩
  | some held =>
    refine ⟨?_, fun k s hlive => ?_, fun k hk => ?_⟩
    · dsimp only
      rw [Table.size_set_old hget]
      exact h.room
    · by_cases hk : k = w.sessions.handle mac id
      · rw [hk]
        exact h.known _ held hget
      · exact h.known k s ((Table.get?_set_ne _ _ hk).symm.trans hlive)
    · obtain ⟨hne, hin⟩ := hbegun k hk
      obtain ⟨hknown, hzero⟩ := h.begun k hin
      exact ⟨hknown, fun s hlive => hzero s ((Table.get?_set_ne _ _ hne).symm.trans hlive)⟩

/-- The step lemma. -/
theorem Kept.step {w : World} {a : Act} (h : Kept w) (hfresh : w.Fresh mac a) : Kept (w.step mac a) := by
  cases a with
  | tick elapsed => exact ⟨h.1.launches _ _ _ _ _, h.2.ticked elapsed⟩
  | issue range value => exact ⟨h.1.launches _ _ _ _ _, h.2.issue range hfresh⟩
  | classify value => exact h
  | full => exact h
  | exchange id cookies => exact h.exchange cookies hfresh
  | create id subject issuer => exact h.create issuer false hfresh
  | createExpiring id subject issuer => exact h.create issuer true hfresh
  | expiring id name email =>
    unfold World.step
    dsimp only
    split
    · exact ⟨h.1.expiring id name email, h.2.sessions _ _ _⟩
    · exact h
  | password id => exact ⟨h.1.ends (password_ends w.now id w.sessions), h.2.sessions _ _ _⟩
  | lookup id => exact ⟨h.1.ends (lookup_ends w.now id w.sessions), h.2.sessions _ _ _⟩
  | revoke id => exact ⟨h.1.ends (revoke_ends w.now id w.sessions), h.2.sessions _ _ _⟩
  | expireVerified handle => exact ⟨h.1.ends (expireVerified_ends w.now handle w.sessions), h.2.sessions _ _ _⟩
  | close => exact ⟨h.1.ends (close_ends w.now w.sessions), h.2.sessions _ _ _⟩

theorem Kept.start (now : Time) (sessionKey launchKey : List UInt8) : Kept (World.start now sessionKey launchKey) := by
  have none : ∀ {V : Type} {p : Prop} {k : String} {v : V}, (Table.empty : Table V).get? k = some v → p := by
    intro V p k v h
    rw [Table.get?_empty] at h
    cases h
  refine ⟨⟨Nat.zero_le _, fun _ _ h => none h, fun _ h => by cases h⟩, ?_⟩
  exact {
    small := Nat.zero_le _
    past := fun _ _ h => none h
    issued := List.nodup_nil
    given := fun _ _ h => none h
    finished := fun _ _ h => none h
    spent := fun _ h => none h
    expired := fun _ h => none h
    minted := fun _ h => by cases h
    once := List.nodup_nil
    displaced := fun _ h => by cases h }

/-! ## A session that has ended -/

/-- A session was opened under this handle, and is no longer live or past its end. -/
def World.Ended (w : World) (h : String) : Prop :=
  h ∈ w.known ∧ ∀ s, w.sessions.live.get? h = some s → s.expires ≠ 0 ∧ s.expires ≤ w.now

theorem World.Ended.ends {w : World} {h : String} {st : SessionStore} (hended : w.Ended h) (he : Ends w.now w.sessions st) :
    World.Ended { w with sessions := st } h := by
  refine ⟨hended.1, fun s hget => ?_⟩
  obtain ⟨s', hs', hsame | ⟨_, hopen⟩⟩ := he.held h s hget
  · rw [hsame]
    exact hended.2 s' hs'
  · exact absurd hopen (Nat.not_lt_of_le (hended.2 s' hs').2)

/-- A new session is no old one. -/
theorem World.Ended.opened {w w' : World} {h h' : String} {s : Session} (hended : w.Ended h) (hfresh : h' ∉ w.known)
    (hlive : w'.sessions.live = w.sessions.live.set h' s) (hknown : w'.known = h' :: w.known) (hnow : w'.now = w.now) :
    w'.Ended h := by
  refine ⟨by rw [hknown]; exact List.mem_cons_of_mem _ hended.1, fun t hget => ?_⟩
  have hne : h ≠ h' := fun he => hfresh (he ▸ hended.1)
  rw [hlive, Table.get?_set_ne _ _ hne] at hget
  rw [hnow]
  exact hended.2 t hget

theorem World.Ended.step {w : World} {a : Act} {h : String} (hended : w.Ended h) (hroom : Room w) (hfresh : w.Fresh mac a) :
    (w.step mac a).Ended h := by
  cases a with
  | tick elapsed =>
    refine ⟨hended.1, fun s hget => ?_⟩
    obtain ⟨hne, hle⟩ := hended.2 s hget
    exact ⟨hne, Nat.le_trans hle (Nat.le_add_right _ _)⟩
  | issue range value => exact hended
  | classify value => exact hended
  | full => exact hended
  | exchange id cookies =>
    show World.Ended (w.exchange mac id cookies) h
    unfold World.exchange
    rcases @createCommitting_cases mac w.now id "local user" none (spendPresented mac w.now cookies) w.sessions w.launches with
      ⟨_, heq⟩ | ⟨_, _, heq⟩ | ⟨_, _, opened, _, heq⟩
    · rw [heq]; exact hended
    · rw [heq]; exact hended
    · rw [heq]; exact hended.opened (s := opened) hfresh rfl rfl rfl
  | create id subject issuer => exact created hended issuer false hfresh
  | createExpiring id subject issuer => exact created hended issuer true hfresh
  | expiring id name email =>
    unfold World.step
    dsimp only
    split
    · rename_i hbegun
      refine ⟨hended.1, fun s hget => ?_⟩
      unfold SessionStore.expiring at hget
      cases hlive : w.sessions.live.get? (w.sessions.handle mac id) with
      | none =>
        rw [hlive] at hget
        exact hended.2 s hget
      | some held =>
        rw [hlive] at hget
        have hne : h ≠ w.sessions.handle mac id := by
          intro heq
          subst heq
          exact (hended.2 held hlive).1 ((hroom.begun _ hbegun).2 held hlive)
        exact hended.2 s ((Table.get?_set_ne _ _ hne).symm.trans hget)
    · exact hended
  | password id => exact hended.ends (password_ends w.now id w.sessions)
  | lookup id => exact hended.ends (lookup_ends w.now id w.sessions)
  | revoke id => exact hended.ends (revoke_ends w.now id w.sessions)
  | expireVerified handle => exact hended.ends (expireVerified_ends w.now handle w.sessions)
  | close => exact hended.ends (close_ends w.now w.sessions)
where
  created {w : World} {id subject : String} {h : String} (hended : w.Ended h) (issuer : Option String) (expiring : Bool)
      (hfresh : w.sessions.handle mac id ∉ w.known) : (w.create mac id subject issuer expiring).Ended h := by
    unfold World.create Sessions.create
    rcases @createCommitting_cases mac w.now id subject issuer (fun ls => (true, ls)) w.sessions w.launches with
      ⟨_, heq⟩ | ⟨_, hnot, _⟩ | ⟨_, _, opened, _, heq⟩
    · rw [heq]; exact hended
    · cases hnot
    · rw [heq]; exact hended.opened (s := opened) hfresh rfl rfl rfl

/-- The keys are those of the process. -/
theorem key_step (w : World) (a : Act) : (w.step mac a).sessions.key = w.sessions.key := by
  cases a with
  | exchange id cookies =>
    show (w.exchange mac id cookies).sessions.key = _
    unfold World.exchange
    rcases @createCommitting_cases mac w.now id "local user" none (spendPresented mac w.now cookies) w.sessions w.launches with
      ⟨_, heq⟩ | ⟨_, _, heq⟩ | ⟨_, _, opened, _, heq⟩
    all_goals rw [heq]
  | create id subject issuer => exact created issuer false
  | createExpiring id subject issuer => exact created issuer true
  | expiring id name email =>
    unfold World.step SessionStore.expiring
    dsimp only
    split
    · split <;> rfl
    · rfl
  | password id => exact (password_ends w.now id w.sessions).key
  | lookup id => exact (lookup_ends w.now id w.sessions).key
  | revoke id => exact (revoke_ends w.now id w.sessions).key
  | expireVerified handle => exact (expireVerified_ends w.now handle w.sessions).key
  | _ => rfl
where
  created {w : World} {id subject : String} (issuer : Option String) (expiring : Bool) :
      (w.create mac id subject issuer expiring).sessions.key = w.sessions.key := by
    unfold World.create Sessions.create
    rcases @createCommitting_cases mac w.now id subject issuer (fun ls => (true, ls)) w.sessions w.launches with
      ⟨_, heq⟩ | ⟨_, _, heq⟩ | ⟨_, _, opened, _, heq⟩
    all_goals rw [heq]


theorem key_run (w : World) (as : List Act) : (run (World.step mac) w as).sessions.key = w.sessions.key := by
  induction as generalizing w with
  | nil => rfl
  | cons a rest ih => exact (ih _).trans (key_step w a)

theorem Kept.run {w : World} {as : List Act} (h : Kept w) (hf : Along (World.step mac) (World.Fresh mac) w as) :
    Kept (Desk.run (World.step mac) w as) :=
  run_invariant_along (fun _ _ hk hfresh => hk.step hfresh) h hf

/-- The run lemma of what has ended. -/
theorem World.Ended.run {w : World} {h : String} {as : List Act} (hended : w.Ended h) (hk : Kept w)
    (hf : Along (World.step mac) (World.Fresh mac) w as) : (Desk.run (World.step mac) w as).Ended h :=
  (run_invariant_along (P := fun w => Kept w ∧ w.Ended h)
    (fun _ _ hp hfresh => ⟨hp.1.step hfresh, hp.2.step hp.1.1 hfresh⟩) ⟨hk, hended⟩ hf).2

theorem revoke_ended {w : World} (hroom : Room w) {id : String} (hrevoked : (w.sessions.revoke mac id).1 = true) :
    (w.step mac (.revoke id)).Ended (w.sessions.handle mac id) := by
  unfold SessionStore.revoke at hrevoked
  cases hget : w.sessions.live.get? (w.sessions.handle mac id) with
  | none =>
    dsimp only at hrevoked
    rw [hget] at hrevoked
    cases hrevoked
  | some held =>
    refine ⟨hroom.known _ held hget, fun s hs => ?_⟩
    have hgone : ((w.sessions.revoke mac id).2.live).get? (w.sessions.handle mac id) = none := by
      unfold SessionStore.revoke
      dsimp only
      rw [hget]
      exact Table.get?_delete_self _ _
    rw [show (w.step mac (.revoke id)).sessions = (w.sessions.revoke mac id).2 from rfl, hgone] at hs
    cases hs

theorem count_minted {w : World} (h : Once w) (handoff : String) :
    (w.minted.countP fun m => handoff ∈ m.handoffs) ≤ 1 := by
  have hcount : ∀ l : List Mint, (l.countP fun m => handoff ∈ m.handoffs) ≤ (l.flatMap (·.handoffs)).count handoff := by
    intro l
    induction l with
    | nil => exact Nat.le_refl _
    | cons m rest ih =>
      rw [List.flatMap_cons, List.count_append, List.countP_cons]
      by_cases hin : handoff ∈ m.handoffs
      · have := List.count_pos_iff.mpr hin
        simp only [hin, decide_true, if_true]
        omega
      · simp only [hin, decide_false, Bool.false_eq_true, if_false]
        omega
  exact Nat.le_trans (hcount w.minted) (List.nodup_iff_count_le_one.mp h.once handoff)

/-- Sessions and handoffs stay bounded, a handoff mints once and in its window, a refusal
for want of room spends nothing, what has ended never authorises again, and the record
of the handoffs finished with is bounded and right. -/
theorem handoffs_single_use (now : Time) (sessionKey launchKey : List UInt8) (as : List Act)
    (hf : Along (World.step mac) (World.Fresh mac) (World.start now sessionKey launchKey) as) :
    let w := run (World.step mac) (World.start now sessionKey launchKey) as
    w.sessions.live.size ≤ maxSessions ∧
    (∀ h, (w.minted.countP fun m => h ∈ m.handoffs) ≤ 1) ∧
    (∀ m ∈ w.minted, m.handoffs ≠ [] ∧ ∀ h ∈ m.handoffs, ∃ t, (h, t) ∈ w.issued ∧ m.time ≤ t + launchWindow) ∧
    (∀ id cookies, maxSessions ≤ w.sessions.live.size →
      w.exchange mac id cookies = w ∧ w.sessions.full = true) ∧
    (∀ id, (w.sessions.revoke mac id).1 = true → (w.step mac (.revoke id)).Ended (w.sessions.handle mac id)) ∧
    (∀ h s, w.sessions.live.get? h = some s → s.expires ≠ 0 → s.expires ≤ w.now → w.Ended h) ∧
    (∀ h, w.Ended h → ∀ bs, Along (World.step mac) (World.Fresh mac) w bs → ∀ id, w.sessions.handle mac id = h →
      ((run (World.step mac) w bs).sessions.lookup mac (run (World.step mac) w bs).now id).1 = none) ∧
    w.launches.finished.held.size ≤ maxTombstones ∧
    (∀ h, w.launches.finished.get? h = some .spent → ∃ m ∈ w.minted, h ∈ m.handoffs) ∧
    (∀ h, w.launches.finished.get? h = some .expired → (∀ m ∈ w.minted, h ∉ m.handoffs) ∧
      ((∃ t, (h, t) ∈ w.issued ∧ t + launchWindow < w.now) ∨ ∃ d ∈ w.displaced, d.handoff = h ∧ d.ForRoom)) ∧
    ∀ h how, w.launches.finished.get? h = some how → (how = .spent ∨ how = .expired) ∧ h ∈ w.issued.map (·.1) := by
  intro w
  have hk : Kept w := (Kept.start now sessionKey launchKey).run hf
  refine ⟨hk.1.room, count_minted hk.2, hk.2.minted, fun id cookies hfull => ?_, fun id => revoke_ended hk.1,
    fun h s hget hne hle => ?_, fun h hended bs hbs id hid => ?_, Ring.size_le _, hk.2.spent, fun h hexp => ?_,
    fun h how hfin => ⟨hk.2.past h how hfin, hk.2.finished h how hfin⟩⟩
  · refine ⟨?_, decide_eq_true hfull⟩
    unfold World.exchange createCommitting
    rw [if_pos hfull]
  · refine ⟨hk.1.known h s hget, fun t ht => ?_⟩
    rw [hget] at ht
    cases ht
    exact ⟨hne, hle⟩
  · have hrun := hended.run hk hbs
    have hkey : (run (World.step mac) w bs).sessions.handle mac id = h := by
      rw [← hid]
      exact congrArg (mac · id) (key_run w bs)
    exact lookup_none (by rw [hkey]; exact hrun.2)
  · obtain ⟨hunspent, hlapsed | ⟨d, hd, heq⟩⟩ := hk.2.expired h hexp
    · exact ⟨hunspent, Or.inl hlapsed⟩
    · exact ⟨hunspent, Or.inr ⟨d, hd, heq, hk.2.displaced d hd⟩⟩

end

/-- A handoff is issued, buys a session a second later, and the session is revoked. -/
def launchRun : List Act :=
  [.issue .inOrder "launch", .tick second, .exchange "session" ["launch"], .revoke "session"]

theorem handoffs_single_use_sample :
    let w := run (World.step macOf) (World.start 1 [1] [2]) launchRun
    w.sessions.live.size ≤ maxSessions ∧ (∀ h, (w.minted.countP fun m => h ∈ m.handoffs) ≤ 1) := by
  have hf : Along (World.step macOf) (World.Fresh macOf) (World.start 1 [1] [2]) launchRun :=
    ⟨List.not_mem_nil, trivial, List.not_mem_nil, trivial, trivial⟩
  have h := handoffs_single_use 1 [1] [2] launchRun hf
  exact ⟨h.1, h.2.1⟩

instance decidableFresh (mac : List UInt8 → String → String) (w : World) : ∀ a : Act, Decidable (w.Fresh mac a)
  | .issue _ value => inferInstanceAs (Decidable (w.launches.handle mac value ∉ w.issued.map (·.1)))
  | .exchange id _ => inferInstanceAs (Decidable (w.sessions.handle mac id ∉ w.known))
  | .create id _ _ => inferInstanceAs (Decidable (w.sessions.handle mac id ∉ w.known))
  | .createExpiring id _ _ => inferInstanceAs (Decidable (w.sessions.handle mac id ∉ w.known))
  | .tick _ => isTrue trivial
  | .classify _ => isTrue trivial
  | .full => isTrue trivial
  | .expiring _ _ _ => isTrue trivial
  | .password _ => isTrue trivial
  | .lookup _ => isTrue trivial
  | .revoke _ => isTrue trivial
  | .expireVerified _ => isTrue trivial
  | .close => isTrue trivial

/-- Thirty-three launches in one moment. -/
def crowdedRun : List Act :=
  "abcdefghijklmnopqrstuvwxyz0123456".toList.map fun c => .issue .inOrder c.toString

/-- A handoff is recorded as expired in its own window: it made room for another. -/
theorem displaced_in_window :
    ¬ ∀ (mac : List UInt8 → String → String) (now : Time) (sessionKey launchKey : List UInt8) (as : List Act),
      Along (World.step mac) (World.Fresh mac) (World.start now sessionKey launchKey) as →
      ∀ h, (run (World.step mac) (World.start now sessionKey launchKey) as).launches.finished.get? h = some .expired →
        ∃ t, (h, t) ∈ (run (World.step mac) (World.start now sessionKey launchKey) as).issued ∧
          t + launchWindow < (run (World.step mac) (World.start now sessionKey launchKey) as).now := by
  intro claim
  obtain ⟨t, _, hpast⟩ := claim (fun _ value => value) 1 [] [] crowdedRun (by decide +kernel) "5" (by decide +kernel)
  have hnow : (run (World.step fun _ value => value) (World.start 1 [] []) crowdedRun).now = 1 := by decide +kernel
  have hwindow : 1 ≤ launchWindow := by decide
  rw [hnow] at hpast
  exact Nat.not_lt_of_le (Nat.le_trans hwindow (Nat.le_add_left _ t)) hpast

end Desk.Sessions
