import Desk.Research.CallSound
import Desk.Lib.Run
import Mathlib.Data.List.Induction

/-!
# Chains of attempts

The attempts of one kind on one digest form a chain: numbered from one, each
naming the one before it and named by it, all but the last failed as the saved
policy allows.
-/

namespace Desk.Research

/-! ## Chains -/

/-- The id of the attempt of that number. -/
def attemptID (digest : String) (n : Nat) : String := if n = 1 then "attempt_" ++ digest else retryID digest n

def group (attempts : List Attempt) (kind : Kind) (digest : String) : List Attempt :=
  attempts.filter fun a => decide (a.kind = kind) && a.digest == digest

/-- The attempts one request may take: one, or the saved retries more. -/
def mostAttempts (recipe : Recipe) : Int :=
  match recipe.retries with
  | some policy => if policy.temporary then max 1 (policy.maxRetries + 1) else 1
  | none => 1

structure Chain (recipe : Recipe) (digest : String) (g : List Attempt) : Prop where
  linked : ∀ (i : Nat) (a : Attempt), g[i]? = some a →
    a.number = (i + 1 : Nat) ∧ a.id = attemptID digest (i + 1) ∧
    a.retryOf = (if i = 0 then "" else attemptID digest i) ∧
    a.retriedBy = (if i + 1 < g.length then attemptID digest (i + 2) else "")
  failed : ∀ (i : Nat) (a : Attempt), g[i]? = some a → i + 1 < g.length → a.state = .uncertain ∧ researchRetryAllowed recipe a = true
  bounded : (g.length : Int) ≤ mostAttempts recipe

def Chains (run : Run) : Prop := ∀ kind digest, Chain run.recipe digest (group run.attempts kind digest)

theorem one_le_mostAttempts (recipe : Recipe) : 1 ≤ mostAttempts recipe := by
  unfold mostAttempts
  split
  · split_ifs <;> omega
  · exact Int.le_refl _

theorem attemptID_ne_empty (digest : String) (n : Nat) : attemptID digest n ≠ "" := by
  have hne : ∀ s : String, "attempt_" ++ s ≠ "" := by
    intro s h
    have := congrArg String.length h
    simp at this
  unfold attemptID
  split_ifs
  · exact hne _
  · rw [retryID, String.append_assoc, String.append_assoc]
    exact hne _

theorem Chain.nil (recipe : Recipe) (digest : String) : Chain recipe digest [] where
  linked i a h := by simp at h
  failed i a h := by simp at h
  bounded := by
    have := one_le_mostAttempts recipe
    simp only [List.length_nil]
    omega

/-! ## Steps -/

theorem getElem?_keeps {g g' : List Attempt} (h : List.Forall₂ Keeps g g') {i : Nat} {a' : Attempt}
    (hi : g'[i]? = some a') : ∃ a, g[i]? = some a ∧ Keeps a a' := by
  induction h generalizing i with
  | nil => simp at hi
  | @cons a b g g' hab _ ih =>
    cases i with
    | zero =>
      obtain rfl := Option.some.inj hi
      exact ⟨a, rfl, hab⟩
    | succ i => exact ih hi

theorem Keeps.allowed {a a' : Attempt} (k : Keeps a a') (h : a.state = .uncertain) (recipe : Recipe) :
    researchRetryAllowed recipe a' = researchRetryAllowed recipe a := by
  obtain ⟨-, hp, ha⟩ := k.failed h
  simp only [researchRetryAllowed, k.kind, hp, ha]

theorem Chain.keeps {recipe : Recipe} {digest : String} {g g' : List Attempt} (c : Chain recipe digest g)
    (h : List.Forall₂ Keeps g g') : Chain recipe digest g' := by
  have hlen := h.length_eq
  refine ⟨?_, ?_, ?_⟩
  · intro i a' hi
    obtain ⟨a, ha, k⟩ := getElem?_keeps h hi
    rw [k.number, k.id, k.retryOf, k.retriedBy, ← hlen]
    exact c.linked i a ha
  · intro i a' hi hlt
    obtain ⟨a, ha, k⟩ := getElem?_keeps h hi
    rw [← hlen] at hlt
    obtain ⟨hs, hallowed⟩ := c.failed i a ha hlt
    exact ⟨(k.failed hs).1, (k.allowed hs recipe).trans hallowed⟩
  · rw [← hlen]
    exact c.bounded

theorem group_keeps {l l' : List Attempt} (h : List.Forall₂ Keeps l l') (kind : Kind) (digest : String) :
    List.Forall₂ Keeps (group l kind digest) (group l' kind digest) := by
  apply List.rel_filter _ h
  intro a a' k
  simp [k.kind, k.digest]

theorem group_append (l l' : List Attempt) (kind : Kind) (digest : String) :
    group (l ++ l') kind digest = group l kind digest ++ group l' kind digest :=
  List.filter_append ..

theorem group_single_self {a : Attempt} {kind : Kind} {digest : String} (h : a.kind = kind ∧ a.digest = digest) :
    group [a] kind digest = [a] := by
  simp [group, h.1, h.2]

theorem group_single_other {a : Attempt} {kind : Kind} {digest : String} (h : ¬(a.kind = kind ∧ a.digest = digest)) :
    group [a] kind digest = [] := by
  simpa [group] using h

/-- The chain of a first attempt. -/
theorem Chain.first {recipe : Recipe} {a : Attempt} (hid : a.id = "attempt_" ++ a.digest) (hn : a.number = 1)
    (ho : a.retryOf = "") (hb : a.retriedBy = "") : Chain recipe a.digest [a] where
  linked i b hi := by
    cases i with
    | zero =>
      obtain rfl := Option.some.inj hi
      simp [attemptID, hid, hn, ho, hb]
    | succ i => simp at hi
  failed i b hi hlt := by
    simp only [List.length_singleton] at hlt
    omega
  bounded := one_le_mostAttempts recipe

theorem getElem?_two {l : List Attempt} {x y b : Attempt} {i : Nat} (h : (l ++ [x, y])[i]? = some b) :
    (l[i]? = some b ∧ i < l.length) ∨ (i = l.length ∧ b = x) ∨ (i = l.length + 1 ∧ b = y) := by
  by_cases hi : i < l.length
  · rw [List.getElem?_append_left hi] at h
    exact .inl ⟨h, hi⟩
  · rw [List.getElem?_append_right (by omega)] at h
    obtain ⟨k, hk⟩ : ∃ k, i = l.length + k := ⟨i - l.length, by omega⟩
    subst hk
    rw [Nat.add_sub_cancel_left] at h
    match k with
    | 0 => exact .inr (.inl ⟨rfl, (Option.some.inj h).symm⟩)
    | 1 => exact .inr (.inr ⟨rfl, (Option.some.inj h).symm⟩)
    | k + 2 => simp at h

/-- Only the last attempt of a chain is not yet retried. -/
theorem Chain.last {recipe : Recipe} {digest : String} {pre post : List Attempt} {a : Attempt}
    (c : Chain recipe digest (pre ++ a :: post)) (h : a.retriedBy = "") : post = [] := by
  obtain ⟨-, -, -, hby⟩ := c.linked pre.length a (by simp)
  rw [h] at hby
  split_ifs at hby with hlt
  · exact absurd hby.symm (attemptID_ne_empty _ _)
  · simp only [List.length_append, List.length_cons] at hlt
    exact List.length_eq_zero_iff.mp (by omega)

/-- A retry goes on with the chain. -/
theorem Chain.follow {recipe : Recipe} {pre : List Attempt} {previous a : Attempt}
    (c : Chain recipe previous.digest (pre ++ [previous])) (f : Follows recipe previous a) (hb : a.retriedBy = "") :
    Chain recipe previous.digest (pre ++ [retried previous a.id, a]) := by
  have hprev := c.linked pre.length previous (by simp)
  obtain ⟨hn, hid, ho, -⟩ := hprev
  have hnumber : a.number = (pre.length + 1 : Nat) + 1 := by
    rw [f.number, researchAttemptNumber, hn]
    omega
  have haid : a.id = attemptID previous.digest (pre.length + 2) := by
    rw [f.id, hnumber, attemptID, if_neg (by omega)]
    rfl
  refine ⟨?_, ?_, ?_⟩
  · intro i b hi
    obtain ⟨hb', hlt⟩ | ⟨rfl, rfl⟩ | ⟨rfl, rfl⟩ := getElem?_two hi
    · obtain ⟨h1, h2, h3, h4⟩ := c.linked i b (by rw [List.getElem?_append_left hlt]; exact hb')
      refine ⟨h1, h2, h3, ?_⟩
      rw [h4, if_pos (by simp; omega), if_pos (by simp; omega)]
    · refine ⟨hn, hid, ho, ?_⟩
      rw [if_pos (by simp)]
      exact haid
    · refine ⟨by rw [hnumber]; push_cast; rfl, haid, ?_, ?_⟩
      · rw [if_neg (by omega), f.retryOf, hid]
      · rw [if_neg (by simp), hb]
  · intro i b hi hlt
    obtain ⟨hb', hl⟩ | ⟨rfl, rfl⟩ | ⟨rfl, rfl⟩ := getElem?_two hi
    · exact c.failed i b (by rw [List.getElem?_append_left hl]; exact hb') (by simp; omega)
    · exact ⟨f.failed, f.allowed⟩
    · simp at hlt
  · obtain ⟨policy, hp, hle⟩ := f.within
    have htemp : policy.temporary = true := by
      have := f.allowed
      simp only [researchRetryAllowed, hp] at this
      split_ifs at this with h
      push Not at h
      simpa using h.1
    simp only [mostAttempts, hp, htemp, if_true, List.length_append, List.length_cons, List.length_nil]
    omega

theorem Chains.move {run next : Run} {c : Call} (h : Chains run) (m : Move run c next) : Chains next := by
  intro kind digest
  cases m with
  | quiet _ _ q =>
    rw [q.recipe]
    exact (h kind digest).keeps (group_keeps q.attempts kind digest)
  | began _ _ _ _ _ attempt joins text hdigest hid hn ho first =>
    change Chain run.recipe digest (group (run.attempts ++ [attempt]) kind digest)
    rw [group_append]
    by_cases hself : attempt.kind = kind ∧ attempt.digest = digest
    · have hempty : group run.attempts kind digest = [] := by
        rw [group, List.filter_eq_nil_iff]
        intro a ha
        have := first a ha
        rw [hself.1, hself.2] at this
        simp only [Bool.and_eq_true, decide_eq_true_eq, beq_iff_eq]
        tauto
      rw [hempty, group_single_self hself, List.nil_append, ← hself.2]
      exact .first hid hn ho joins.last
    · rw [group_single_other hself, List.append_nil]
      exact h kind digest
  | retry _ pre previous post pending attempt split joins follows =>
    change Chain run.recipe digest (group (pre ++ retried previous attempt.id :: post ++ [attempt]) kind digest)
    have hc := h kind digest
    rw [split, List.append_cons, group_append, group_append] at hc
    rw [List.append_cons pre, group_append, group_append, group_append]
    by_cases hself : previous.kind = kind ∧ previous.digest = digest
    · have hpost : group post kind digest = [] := by
        rw [group_single_self hself, List.append_assoc] at hc
        exact hc.last follows.unfollowed
      rw [group_single_self hself, hpost, List.append_nil] at hc
      rw [group_single_self (a := retried previous attempt.id) hself, hpost, List.append_nil,
        group_single_self ⟨follows.kind.trans hself.1, follows.digest.trans hself.2⟩, List.append_assoc]
      rw [← hself.2] at hc ⊢
      exact hc.follow follows joins.last
    · rw [group_single_other hself] at hc
      rw [group_single_other (a := retried previous attempt.id) hself,
        group_single_other (by rw [follows.kind, follows.digest]; exact hself), List.append_nil]
      exact hc
  | paused request now hp =>
    simp only [pauseResearchForBudget, hp]
    exact h kind digest
  | decided id decision actor responses sources now next hd =>
    obtain ⟨ha, hr, -⟩ := decideResearchBudget_ok hd
    rw [ha, hr]
    exact h kind digest

/-! ## Ids -/

theorem attemptID_inj {d d' : String} (hd : d.toList.length = 64) (hd' : d'.toList.length = 64) {n n' : Nat}
    (h : attemptID d n = attemptID d' n') : d = d' ∧ n = n' := by
  have hlong : ∀ e e' r : String, e.toList.length = 64 → e'.toList.length = 64 →
      "attempt_" ++ e ≠ "attempt_" ++ e' ++ "_" ++ r := by
    intro e e' r he he' heq
    have := congrArg (fun s : String => s.toList.length) heq
    simp only [String.toList_append, List.length_append, he, he'] at this
    have hone : ("_" : String).toList.length = 1 := rfl
    omega
  unfold attemptID at h
  split_ifs at h with hn hn' hn'
  · exact ⟨(String.append_right_inj _).mp h, hn.trans hn'.symm⟩
  · exact absurd h (hlong d d' _ hd hd')
  · exact absurd h.symm (hlong d' d _ hd' hd)
  · simp only [retryID, String.append_assoc, String.append_right_inj] at h
    have hl := congrArg String.toList h
    simp only [String.toList_append] at hl
    obtain ⟨h1, h2⟩ := List.append_inj hl (hd.trans hd'.symm)
    have hr := String.toList_inj.mp (List.append_cancel_left h2)
    exact ⟨String.toList_inj.mp h1, Nat.repr_injective hr⟩

/-- Every attempt answers a request that some call of the run made first. -/
def Requested (calls : List Call) (attempts : List Attempt) : Prop :=
  ∀ a ∈ attempts, ∃ args url query now, .begin a.kind.text args url query now ∈ calls ∧
    a.digest = attemptKey a.kind.text args

theorem Requested.move {calls : List Call} {run next : Run} {c : Call} (h : Requested calls run.attempts)
    (m : Move run c next) : Requested (calls ++ [c]) next.attempts := by
  have hlater : ∀ {a a' : Attempt}, a ∈ run.attempts → a'.kind = a.kind → a'.digest = a.digest →
      ∃ args url query now, .begin a'.kind.text args url query now ∈ calls ++ [c] ∧
        a'.digest = attemptKey a'.kind.text args := by
    intro a a' ha hk hd
    obtain ⟨args, url, query, now, hmem, hdig⟩ := h a ha
    exact ⟨args, url, query, now, by rw [hk]; exact List.mem_append_left _ hmem, by rw [hk, hd, hdig]⟩
  cases m with
  | quiet _ _ q =>
    intro a' ha'
    obtain ⟨i, hi⟩ := List.getElem?_of_mem ha'
    obtain ⟨a, ha, k⟩ := getElem?_keeps q.attempts hi
    exact hlater (List.mem_of_getElem? ha) k.kind k.digest
  | began kind args url query now attempt joins text hdigest hid hn ho first =>
    intro a ha
    obtain ha | ha := List.mem_append.mp ha
    · exact hlater ha rfl rfl
    · obtain rfl := List.mem_singleton.mp ha
      subst text
      exact ⟨args, url, query, now, by simp, hdigest⟩
  | retry _ pre previous post pending attempt split joins follows =>
    have hprev : previous ∈ run.attempts := by
      rw [split]
      simp
    intro a ha
    change a ∈ pre ++ retried previous attempt.id :: post ++ [attempt] at ha
    simp only [List.mem_append, List.mem_cons, List.not_mem_nil, or_false] at ha
    obtain (ha | rfl | ha) | rfl := ha
    · exact hlater (by rw [split]; exact List.mem_append_left _ ha) rfl rfl
    · exact hlater hprev rfl rfl
    · exact hlater (by rw [split]; exact List.mem_append_right _ (List.mem_cons_of_mem _ ha)) rfl rfl
    · exact hlater hprev follows.kind follows.digest
  | paused request now hp =>
    simp only [pauseResearchForBudget, hp]
    intro a ha
    exact hlater ha rfl rfl
  | decided id decision actor responses sources now next hd =>
    rw [(decideResearchBudget_ok hd).1]
    intro a ha
    exact hlater ha rfl rfl

/-- The requests of a run of different kinds have different digests. -/
def KindsApart (calls : List Call) : Prop :=
  ∀ kind args url query now kind' args' url' query' now', .begin kind args url query now ∈ calls →
    .begin kind' args' url' query' now' ∈ calls → attemptKey kind args = attemptKey kind' args' → kind = kind'

theorem kind_of_text {k k' : Kind} (h : k.text = k'.text) : k = k' := by
  cases k <;> cases k' <;> first | rfl | exact absurd h (by decide)

theorem ids_nodup {calls : List Call} {run : Run} (chains : Chains run) (requested : Requested calls run.attempts)
    (apart : KindsApart calls) : (run.attempts.map (·.id)).Nodup := by
  rw [List.Nodup, List.pairwise_map, List.pairwise_iff_forall_sublist]
  intro a b hsub heq
  have ha : a ∈ run.attempts := hsub.subset (by simp)
  have hb : b ∈ run.attempts := hsub.subset (by simp)
  -- Each id is the one of its number in its chain.
  have hid : ∀ x ∈ run.attempts, ∃ i, (group run.attempts x.kind x.digest)[i]? = some x ∧
      x.id = attemptID x.digest (i + 1) := by
    intro x hx
    have hg : x ∈ group run.attempts x.kind x.digest := by simp [group, hx]
    obtain ⟨i, hi⟩ := List.getElem?_of_mem hg
    exact ⟨i, hi, ((chains x.kind x.digest).linked i x hi).2.1⟩
  have hlen : ∀ x ∈ run.attempts, x.digest.toList.length = 64 := by
    intro x hx
    obtain ⟨args, -, -, -, -, hd⟩ := requested x hx
    rw [hd, attemptKey]
    simpa using length_of_hexForm (digestOf_form (bytesOf (x.kind.text ++ "\n") ++ args))
  obtain ⟨i, hi, hai⟩ := hid a ha
  obtain ⟨j, hj, hbj⟩ := hid b hb
  rw [hai, hbj] at heq
  obtain ⟨hd, hn⟩ := attemptID_inj (hlen a ha) (hlen b hb) heq
  have hk : a.kind = b.kind := by
    obtain ⟨args, url, query, now, hc, hda⟩ := requested a ha
    obtain ⟨args', url', query', now', hc', hdb⟩ := requested b hb
    exact kind_of_text (apart _ _ _ _ _ _ _ _ _ _ hc hc' (hda.symm.trans (hd.trans hdb)))
  -- Two places of one chain have two numbers.
  have hgroup : [a, b].Sublist (group run.attempts b.kind b.digest) := by
    have := hsub.filter fun x => decide (x.kind = b.kind) && x.digest == b.digest
    simpa [hk, hd, group] using this
  have hpair : (group run.attempts b.kind b.digest).Pairwise fun x y => x.number < y.number := by
    rw [List.pairwise_iff_getElem]
    intro m n hm hn' hmn
    rw [((chains b.kind b.digest).linked m _ (List.getElem?_eq_getElem hm)).1,
      ((chains b.kind b.digest).linked n _ (List.getElem?_eq_getElem hn')).1]
    omega
  have hlt := List.pairwise_iff_forall_sublist.mp hpair hgroup
  rw [hk, hd] at hi
  rw [((chains b.kind b.digest).linked i a hi).1, ((chains b.kind b.digest).linked j b hj).1] at hlt
  omega

/-! ## A request that ended -/

def Ended (a : Attempt) : Prop := a.state = .completed ∨ a.state = .refused

/-- Where an attempt ended, its request took no other attempt and is still ended. -/
def StaysEnded (run next : Run) : Prop :=
  ∀ a ∈ run.attempts, Ended a →
    (group next.attempts a.kind a.digest).length = (group run.attempts a.kind a.digest).length ∧
    ∃ a' ∈ next.attempts, a'.kind = a.kind ∧ a'.digest = a.digest ∧ Ended a'

theorem exists_keeps {l l' : List Attempt} (h : List.Forall₂ Keeps l l') {a : Attempt} (ha : a ∈ l) :
    ∃ a' ∈ l', Keeps a a' := by
  induction h with
  | nil => cases ha
  | @cons b b' l l' hk _ ih =>
    obtain rfl | ha := List.mem_cons.mp ha
    · exact ⟨b', List.mem_cons_self .., hk⟩
    · obtain ⟨a', ha', hk'⟩ := ih ha
      exact ⟨a', List.mem_cons_of_mem _ ha', hk'⟩

theorem StaysEnded.move {run next : Run} {c : Call} (chains : Chains run) (m : Move run c next) :
    StaysEnded run next := by
  intro a ha hend
  cases m with
  | quiet _ _ q =>
    obtain ⟨a', ha', k⟩ := exists_keeps q.attempts ha
    refine ⟨(group_keeps q.attempts a.kind a.digest).length_eq.symm, a', ha', k.kind, k.digest, ?_⟩
    rw [Ended, k.final hend]
    exact hend
  | began _ _ _ _ _ attempt joins text hdigest hid hn ho first =>
    refine ⟨?_, a, List.mem_append_left _ ha, rfl, rfl, hend⟩
    change (group (run.attempts ++ [attempt]) a.kind a.digest).length = _
    rw [group_append, group_single_other, List.append_nil]
    intro h
    exact first a ha ⟨h.2.symm, h.1.symm⟩
  | retry _ pre previous post pending attempt split joins follows =>
    have hother : ¬(previous.kind = a.kind ∧ previous.digest = a.digest) := by
      intro hself
      have hc := chains a.kind a.digest
      have hg : a ∈ group run.attempts a.kind a.digest := by simp [group, ha]
      rw [split, List.append_cons, group_append, group_append, group_single_self hself] at hc hg
      rw [List.append_assoc] at hc
      have hpost : group post a.kind a.digest = [] := hc.last follows.unfollowed
      rw [hpost, List.append_nil] at hc hg
      -- An attempt before the last of a chain has failed, and so has the one retried.
      have hunc : a.state = .uncertain := by
        obtain ⟨i, hi⟩ := List.getElem?_of_mem hg
        obtain ⟨hi', hlt⟩ | ⟨rfl, rfl⟩ : (_ ∧ i < (group pre a.kind a.digest).length) ∨
            (i = (group pre a.kind a.digest).length ∧ a = previous) := by
          by_cases hlt : i < (group pre a.kind a.digest).length
          · exact .inl ⟨trivial, hlt⟩
          · rw [List.getElem?_append_right (by omega)] at hi
            obtain ⟨hz, hget⟩ := List.getElem?_eq_some_iff.mp hi
            simp only [List.length_singleton] at hz
            exact .inr ⟨by omega, by simpa [eq_comm] using hget⟩
        · exact (hc.failed i a hi (by simp; omega)).1
        · exact follows.failed
      obtain h | h := hend <;> rw [hunc] at h <;> cases h
    have hne : a ≠ previous := by
      rintro rfl
      exact hother ⟨rfl, rfl⟩
    refine ⟨?_, a, ?_, rfl, rfl, hend⟩
    · change (group (pre ++ retried previous attempt.id :: post ++ [attempt]) a.kind a.digest).length = _
      rw [split, List.append_cons pre, List.append_cons pre previous, group_append, group_append, group_append,
        group_append, group_append, group_single_other (a := retried previous attempt.id) hother,
        group_single_other (by rw [follows.kind, follows.digest]; exact hother), group_single_other hother,
        List.append_nil]
    · change a ∈ pre ++ retried previous attempt.id :: post ++ [attempt]
      rw [split] at ha
      simp only [List.mem_append, List.mem_cons] at ha ⊢
      tauto
  | paused request now hp =>
    rw [show (pauseResearchForBudget run now).attempts = run.attempts by simp only [pauseResearchForBudget, hp]]
    exact ⟨rfl, a, ha, rfl, rfl, hend⟩
  | decided id decision actor responses sources now next hd =>
    rw [(decideResearchBudget_ok hd).1]
    exact ⟨rfl, a, ha, rfl, rfl, hend⟩

/-! ## After a recovery -/

/-- Only a paused run has a pending request. -/
def PendingPaused (run : Run) : Prop := (pendingResearchBudget run).isSome = true → run.state = .paused

theorem PendingPaused.move {run next : Run} {c : Call} (h : PendingPaused run) (m : Move run c next) :
    PendingPaused next := by
  have hsame : ∀ next' : Run, next'.budgetRequests = run.budgetRequests →
      pendingResearchBudget next' = pendingResearchBudget run := by
    intro next' hr
    rw [pendingResearchBudget, hr]
    rfl
  cases m with
  | quiet _ _ q =>
    intro hp
    rw [hsame next q.requests] at hp
    have hs := h hp
    obtain hq | ⟨hq, -⟩ | ⟨hq, -⟩ := q.state
    · exact hq.trans hs
    · rw [hs] at hq
      cases hq
    · rw [hs] at hq
      cases hq
  | began _ _ _ _ _ attempt joins => exact h
  | retry _ pre previous post pending attempt split joins follows => exact h
  | paused request now hp =>
    intro _
    simp only [pauseResearchForBudget, hp]
  | decided id decision actor responses sources now next hd =>
    obtain ⟨-, -, -, -, -, -, -, -, request, state, -, hstate, -, hreq⟩ := decideResearchBudget_ok hd
    intro hp
    obtain rfl | rfl := hstate <;> simp [pendingResearchBudget, hreq, Option.filter] at hp

/-- An interrupted run stays as it is: no attempt joins it. -/
def Interrupted (run : Run) : Prop := run.state = .interrupted ∧ (pendingResearchBudget run).isNone = true

theorem no_offer {run : Run} (h : Interrupted run) (now : String) : researchBudgetProposal run now = none := by
  obtain ⟨hs, hp⟩ := h
  unfold researchBudgetProposal
  rw [Option.isNone_iff_eq_none.mp hp]
  cases run.portable with
  | none => simp [recipeProposed, hs]
  | some portable => simp [portableProposed, hs]

theorem Interrupted.move {run next : Run} {c : Call} (h : Interrupted run) (m : Move run c next) :
    Interrupted next ∧ next.attempts.map (·.id) = run.attempts.map (·.id) := by
  obtain ⟨hs, hp⟩ := h
  cases m with
  | quiet _ _ q =>
    refine ⟨⟨?_, ?_⟩, ?_⟩
    · obtain hq | ⟨hq, -⟩ | ⟨hq, -⟩ := q.state
      · exact hq.trans hs
      · rw [hs] at hq
        cases hq
      · rw [hs] at hq
        cases hq
    · rw [pendingResearchBudget, q.requests]
      exact hp
    · rw [← List.forall₂_eq_eq_eq, List.forall₂_map_left_iff, List.forall₂_map_right_iff]
      exact q.attempts.flip.imp fun _ _ k => k.id
  | began _ _ _ _ _ attempt joins =>
    have := joins.running
    rw [hs] at this
    cases this
  | retry _ pre previous post pending attempt split joins follows =>
    have := joins.running
    rw [hs] at this
    cases this
  | paused request now hr =>
    rw [no_offer ⟨hs, hp⟩] at hr
    cases hr
  | decided id decision actor responses sources now next hd =>
    have := (decideResearchBudget_ok hd).2.2.2.2.2.2.2.1
    rw [hs] at this
    cases this

theorem recovered {run : Run} (hs : run.state = .running) (hp : PendingPaused run) (keptPage : Bool) (now : String) :
    Interrupted (recoverInputResearch run keptPage now) ∧
      (∀ a ∈ (recoverInputResearch run keptPage now).attempts, a.state ≠ .started ∧ a.state ≠ .waiting) ∧
      researchPendingRetries (recoverInputResearch run keptPage now) = [] := by
  have hpending : (pendingResearchBudget run).isNone = true := by
    cases h : pendingResearchBudget run with
    | none => rfl
    | some request =>
      have := hp (by rw [h]; rfl)
      rw [hs] at this
      cases this
  unfold recoverInputResearch
  rw [if_neg (not_ne_iff.mpr hs)]
  refine ⟨⟨?_, ?_⟩, ?_, ?_⟩
  · cases keptPage <;> rfl
  · cases keptPage <;> exact hpending
  · intro a ha
    obtain ⟨b, -, rfl⟩ := List.mem_map.mp ha
    cases hb : b.state <;> simp [recoverAttempt, hb]
  · cases keptPage <;> simp [cancelResearchRetry, removeResearchRetry, setResearchPendingRetries, researchPendingRetries,
      firstDue]

/-! ## Runs -/

/-- A run no attempt of which has begun. -/
structure Fresh (journal : Run) : Prop where
  attempts : journal.attempts = []
  requests : journal.budgetRequests = []

theorem run_snoc (journal : Run) (calls : List Call) (c : Call) :
    run perform journal (calls ++ [c]) = perform (run perform journal calls) c :=
  run_append _ _ _ _

/-- What every run from a fresh journal keeps. -/
structure Kept (journal : Run) (calls : List Call) (last : Run) : Prop where
  chains : Chains last
  requested : Requested calls last.attempts
  paused : PendingPaused last
  recipe : last.recipe = journal.recipe

theorem move_recipe {run next : Run} {c : Call} (m : Move run c next) : next.recipe = run.recipe := by
  cases m with
  | quiet _ _ q => exact q.recipe
  | began => rfl
  | retry => rfl
  | paused request now hp => simp only [pauseResearchForBudget, hp]
  | decided id decision actor responses sources now next hd => exact (decideResearchBudget_ok hd).2.1

theorem Fresh.kept {journal : Run} (h : Fresh journal) (calls : List Call) :
    Kept journal calls (run perform journal calls) := by
  induction calls using List.reverseRecOn with
  | nil =>
    refine ⟨?_, ?_, ?_, rfl⟩
    · intro kind digest
      simp only [run_nil, h.attempts]
      exact .nil _ _
    · intro a ha
      simp only [run_nil, h.attempts, List.not_mem_nil] at ha
    · intro hp
      simp [pendingResearchBudget, h.requests] at hp
  | append_singleton calls c ih =>
    have m := perform_move (run perform journal calls) c
    rw [run_snoc]
    exact ⟨ih.chains.move m, ih.requested.move m, ih.paused.move m, (move_recipe m).trans ih.recipe⟩

theorem staysEnded_run {journal : Run} (h : Fresh journal) (earlier later : List Call) :
    StaysEnded (run perform journal earlier) (run perform journal (earlier ++ later)) := by
  induction later using List.reverseRecOn with
  | nil =>
    rw [List.append_nil]
    intro a ha hend
    exact ⟨rfl, a, ha, rfl, rfl, hend⟩
  | append_singleton later c ih =>
    rw [← List.append_assoc, run_snoc]
    intro a ha hend
    obtain ⟨hlen, a', ha', hk, hd, hend'⟩ := ih a ha hend
    have hstep := StaysEnded.move (h.kept (earlier ++ later)).chains (perform_move _ c) a' ha' hend'
    rw [hk, hd] at hstep
    obtain ⟨hlen', rest⟩ := hstep
    exact ⟨hlen'.trans hlen, rest⟩

theorem interrupted_run {journal : Run} (h : Interrupted journal) (calls : List Call) :
    (run perform journal calls).attempts.map (·.id) = journal.attempts.map (·.id) := by
  induction calls generalizing journal with
  | nil => rfl
  | cons c rest ih =>
    obtain ⟨hi, hids⟩ := h.move (perform_move journal c)
    exact (ih hi).trans hids

/-- Ids stay apart where the digests of the requests do; the attempts of one request are a chain
of at most the saved retries; a request that completed or was refused takes no other attempt;
and a recovered run is waiting for nothing and never sends a request again. -/
theorem attempts_never_dispatched_twice (journal : Run) (fresh : Fresh journal) (calls : List Call) :
    (KindsApart calls → ((run perform journal calls).attempts.map (·.id)).Nodup) ∧
    (∀ kind digest, Chain journal.recipe digest (group (run perform journal calls).attempts kind digest)) ∧
    (∀ earlier later, calls = earlier ++ later → ∀ a ∈ (run perform journal earlier).attempts,
      a.state = .completed ∨ a.state = .refused →
      (group (run perform journal calls).attempts a.kind a.digest).length =
        (group (run perform journal earlier).attempts a.kind a.digest).length) ∧
    (∀ earlier keptPage now later, calls = earlier ++ .recover keptPage now :: later →
      (run perform journal earlier).state = .running →
      let recovered := recoverInputResearch (run perform journal earlier) keptPage now
      (∀ a ∈ recovered.attempts, a.state ≠ .started ∧ a.state ≠ .waiting) ∧
      researchPendingRetries recovered = [] ∧
      (run perform journal calls).attempts.map (·.id) = recovered.attempts.map (·.id)) := by
  have k := fresh.kept calls
  refine ⟨ids_nodup k.chains k.requested, ?_, ?_, ?_⟩
  · intro kind digest
    rw [← k.recipe]
    exact k.chains kind digest
  · rintro earlier later rfl a ha hend
    exact (staysEnded_run fresh earlier later a ha hend).1
  · rintro earlier keptPage now later rfl hs
    obtain ⟨hi, hopen, hpending⟩ := recovered hs (fresh.kept earlier).paused keptPage now
    refine ⟨hopen, hpending, ?_⟩
    rw [run_append]
    exact interrupted_run hi later

/-- A recipe with one search and no retries. -/
def smallRecipe : Recipe where
  retries := none
  limits := ⟨1, 1, 0, 1⟩
  search := true
  otherwiseValid := true

def freshRun : Run := { id := "research_0", state := .queued, recipe := smallRecipe }

theorem attempts_never_dispatched_twice_fresh :
    ((run perform freshRun [.start, .begin "search" [] "" "" ""]).attempts.map (·.id)).Nodup := by
  apply (attempts_never_dispatched_twice freshRun ⟨rfl, rfl⟩ _).1
  intro kind args url query now kind' args' url' query' now' h h' _
  simp only [List.mem_cons, reduceCtorEq, List.not_mem_nil, or_false, false_or, Call.begin.injEq] at h h'
  rw [h.1, h'.1]

end Desk.Research
