import Desk.Delegation.Tracked
import Desk.Lib.Logged

/-!
# Delegated tasks run once and end once

The contract of a batch is what may happen next after what has happened. Every
event of every schedule keeps to it, and no schedule stops before `Run` returns.
-/

namespace Desk.Delegation

/-! ## The contract -/

def Event.failure? : Event → Option Failure
  | .failed err => some err
  | _ => none

def Event.contextEnd? : Event → Option String
  | .contextEnded err => some err
  | _ => none

section
variable (past : List Event) (id : String)

def Untaken : Prop := ∀ u, u.id = id → .took u ∉ past

/-- The task has had no last transition, and its first one has not failed. -/
def Unended : Prop := ∀ u err, u.id = id → .transition u err ∈ past → u.state = .running ∧ err = none

/-- The task has had its last transition, or has none since its first one failed. -/
def Ended : Prop :=
  ∃ u err, u.id = id ∧ .transition u err ∈ past ∧ (u.state ≠ .running ∨ ∃ e, err = some e)

def Succeeded : Prop :=
  (∃ t, t.id = id ∧ .executes t ∈ past) ∧
    ∃ u, u.id = id ∧ (u.state = .complete ∨ u.state = .failed) ∧ .transition u none ∈ past

end

/-- What may happen after `past`, of a batch of `tasks` with `crew` workers. -/
def Allowed (tasks : List Task) (crew : Nat) (past : List Event) : Event → Prop
  | .took t => (∃ u ∈ tasks, u.id = t.id) ∧ Untaken past t.id ∧ .cancelled ∉ past
  | .executes t => t.state = .running ∧ .transition t none ∈ past ∧ ∀ u, u.id = t.id → .executes u ∉ past
  | .executed t _ => .executes t ∈ past ∧ ∀ u err, u.id = t.id → .executed u err ∉ past
  | .transition t _ =>
    Unended past t.id ∧
      if t.state = .running then .took t ∈ past ∧ ∀ u err, u.id = t.id → .transition u err ∉ past
      else
        (∃ u err, u.id = t.id ∧ .executed u err ∈ past ∧
          (t.state = (u.ended err).state ∨ t.state = .interrupted ∧ .cancelled ∈ past)) ∨
        Untaken past t.id ∧ t.state = .interrupted ∧ .cancelled ∈ past ∧ past.count .left = crew
  | .cancelled => (∃ e, .failed e ∈ past) ∨ ∃ err, .contextEnded err ∈ past
  | .returned outcome =>
    past.count .left = crew ∧ (∀ t, .executes t ∈ past → ∃ err, .executed t err ∈ past) ∧
      (∀ t ∈ tasks, Ended past t.id) ∧
      match outcome with
      | .ok => ∀ t ∈ tasks, Succeeded past t.id
      | .stopped e => (past.filterMap Event.failure?).head? = some e
      | .context err => past.filterMap Event.failure? = [] ∧ (past.filterMap Event.contextEnd?).head? = some err
  | .failed _ | .contextEnded _ | .left => True

/-! ## The invariant -/

/-- What is known where a worker stands. -/
def Standing (tasks next : Nat) (log : List Event) : Worker → Prop
  | .settling u _ => u.state = .interrupted → .cancelled ∈ log
  | .cancelling => ∃ e, .failed e ∈ log
  | .done => .cancelled ∈ log ∨ tasks ≤ next
  | _ => True

theorem Standing.mono {tasks next next' : Nat} {log evs : List Event} (hn : next ≤ next') {w : Worker}
    (h : Standing tasks next log w) : Standing tasks next' (log ++ evs) w := by
  cases w with
  | settling u err => exact fun hu => List.mem_append_left _ (h hu)
  | cancelling =>
    obtain ⟨e, he⟩ := h
    exact ⟨e, List.mem_append_left _ he⟩
  | done =>
    rcases h with h | h
    · exact Or.inl (List.mem_append_left _ h)
    · exact Or.inr (h.trans hn)
  | _ => trivial

/-- The flags of a batch are what its log shows. -/
structure Flags (b : Batch) : Prop where
  cancelled : b.cancelled = true ↔ .cancelled ∈ b.log
  fatal : b.fatal = (b.log.filterMap Event.failure?).head?
  context : b.context = (b.log.filterMap Event.contextEnd?).head?

structure Inv (b : Batch) : Prop where
  tracked : Tracked b.tasks b.workers b.next b.log
  flags : Flags b
  left : b.log.count .left = b.workers.count .done
  standing : ∀ w ∈ b.workers, Standing b.tasks.length b.next b.log w
  crew : b.tasks ≠ [] → b.workers ≠ []
  refused : ∀ t e, .transition t (some e) ∈ b.log → (∃ e, .failed e ∈ b.log) ∨ ∃ e, .failing e ∈ b.workers
  allowed : Logged (Allowed b.tasks b.workers.length) b.log

theorem mem_set_or {workers : List Worker} {k : Nat} {w v x : Worker} (hw : workers[k]? = some w) (hx : x ∈ workers) :
    x ∈ workers.set k v ∨ x = w := by
  obtain ⟨j, hj⟩ := List.getElem?_of_mem hx
  by_cases hk : j = k
  · rw [hk, hw] at hj
    exact Or.inr (Option.some.inj hj).symm
  · refine Or.inl (List.mem_of_getElem? (i := j) ?_)
    rw [List.getElem?_set_ne fun heq => hk heq.symm]
    exact hj

theorem count_done_set {workers : List Worker} {k : Nat} {w v : Worker} (hw : workers[k]? = some w) (hne : w ≠ .done) :
    (workers.set k v).count .done = workers.count .done + if v = .done then 1 else 0 := by
  obtain ⟨hlt, rfl⟩ := List.getElem?_eq_some_iff.mp hw
  rw [List.count_set hlt, if_neg (by simpa using hne), Nat.sub_zero]
  simp only [beq_iff_eq]

namespace Inv

variable {b : Batch}

/-- A worker moves on. -/
theorem advance (h : Inv b) {k : Nat} {w v : Worker} (hw : b.workers[k]? = some w) (hne : w ≠ .done) (evs : List Event)
    {next : Nat} {fatal : Option Failure} {cancelled : Bool}
    (htracked : Tracked b.tasks (b.workers.set k v) next (b.log ++ evs))
    (hflags : Flags { b with
      workers := b.workers.set k v, next := next, fatal := fatal, cancelled := cancelled, log := b.log ++ evs })
    (hnext : b.next ≤ next) (hleft : evs.count .left = if v = .done then 1 else 0)
    (hstanding : Standing b.tasks.length next (b.log ++ evs) v)
    (hrefused : ∀ t e, .transition t (some e) ∈ evs → v = .failing e)
    (hfailing : ∀ e, w = .failing e → .failed e ∈ evs)
    (hallowed : Logged (Allowed b.tasks b.workers.length) (b.log ++ evs)) :
    Inv { b with
      workers := b.workers.set k v, next := next, fatal := fatal, cancelled := cancelled, log := b.log ++ evs } where
  tracked := htracked
  flags := hflags
  left := by
    rw [List.count_append, hleft, h.left, count_done_set hw hne]
  standing x hx := by
    rcases List.mem_or_eq_of_mem_set hx with hx | rfl
    · exact (h.standing x hx).mono hnext
    · exact hstanding
  crew htasks := by
    have := h.crew htasks
    intro hnil
    exact this ((List.set_eq_nil_iff _ _).mp hnil)
  refused t e he := by
    have hlt : k < b.workers.length := (List.getElem?_eq_some_iff.mp hw).1
    rcases List.mem_append.mp he with he | he
    · rcases h.refused t e he with ⟨e', he'⟩ | ⟨e', he'⟩
      · exact Or.inl ⟨e', List.mem_append_left _ he'⟩
      · rcases mem_set_or (v := v) hw he' with hmem | heq
        · exact Or.inr ⟨e', hmem⟩
        · exact Or.inl ⟨e', List.mem_append_right _ (hfailing e' heq.symm)⟩
    · refine Or.inr ⟨e, ?_⟩
      rw [← hrefused t e he]
      exact List.mem_set hlt _
  allowed := by
    rw [List.length_set]
    exact hallowed

/-- Something happens that moves no worker. -/
theorem noted (h : Inv b) (evs : List Event) {next : Nat} {fatal : Option Failure} {cancelled returned : Bool}
    {context : Option String} (htracked : Tracked b.tasks b.workers next (b.log ++ evs))
    (hflags : Flags { b with
      next := next, fatal := fatal, cancelled := cancelled, context := context, returned := returned, log := b.log ++ evs })
    (hnext : b.next ≤ next) (hleft : evs.count .left = 0)
    (hrefused : ∀ t e, .transition t (some e) ∈ evs → .failed e ∈ evs)
    (hallowed : Logged (Allowed b.tasks b.workers.length) (b.log ++ evs)) :
    Inv { b with
      next := next, fatal := fatal, cancelled := cancelled, context := context, returned := returned,
      log := b.log ++ evs } where
  tracked := htracked
  flags := hflags
  left := by rw [List.count_append, hleft, h.left, Nat.add_zero]
  standing x hx := (h.standing x hx).mono hnext
  crew := h.crew
  refused t e he := by
    rcases List.mem_append.mp he with he | he
    · rcases h.refused t e he with ⟨e', he'⟩ | hfailing
      · exact Or.inl ⟨e', List.mem_append_left _ he'⟩
      · exact Or.inr hfailing
    · exact Or.inl ⟨e, List.mem_append_right _ (hrefused t e he)⟩
  allowed := hallowed

/-! ## Workers keep it -/

/-- No flag is read from the event. -/
def Plain (e : Event) : Prop := e ≠ .cancelled ∧ e.failure? = none ∧ e.contextEnd? = none

theorem flags_note (h : Inv b) (e : Event) (he : Plain e) {workers : List Worker} {next : Nat} {returned : Bool} :
    Flags { b with workers := workers, next := next, returned := returned, log := b.log ++ [e] } where
  cancelled := by
    rw [List.mem_append, List.mem_singleton]
    exact ⟨fun hc => Or.inl (h.flags.cancelled.mp hc), fun hc =>
      h.flags.cancelled.mpr (hc.resolve_right fun heq => he.1 heq.symm)⟩
  fatal := by
    rw [List.filterMap_append, List.filterMap_cons_none he.2.1, List.filterMap_nil, List.append_nil]
    exact h.flags.fatal
  context := by
    rw [List.filterMap_append, List.filterMap_cons_none he.2.2, List.filterMap_nil, List.append_nil]
    exact h.flags.context

theorem allowed_note (h : Inv b) {e : Event} (he : Allowed b.tasks b.workers.length b.log e) :
    Logged (Allowed b.tasks b.workers.length) (b.log ++ [e]) := logged_concat.mpr ⟨h.allowed, he⟩

theorem mem_log {id : String} {l : List Event} (hpast : b.log.filter (Event.about id) = l) {e : Event}
    (he : e.about id = true) : e ∈ b.log ↔ e ∈ l := by rw [← hpast, mem_hist he]

theorem of_hist {id : String} {l : List Event} (hpast : b.log.filter (Event.about id) = l) {e : Event} (he : e ∈ l) :
    e ∈ b.log := by
  rw [← hpast] at he
  exact (List.mem_filter.mp he).1

theorem about_self {t : Task} : (t.id == t.id) = true := beq_self_eq_true t.id

/-- What a worker that holds a task appends to the log is about the task. -/
theorem only {t : Task} {e : Event} (he : ∀ id, e.about id = (t.id == id)) :
    ∀ d ∈ [e], ∀ id, id ≠ t.id → d.about id = false := by
  intro d hd id hid
  rw [List.mem_singleton.mp hd, he]
  exact beq_false_of_ne fun heq => hid heq.symm

theorem filter_only {id : String} {l : List Event} (hpast : b.log.filter (Event.about id) = l) {e : Event}
    (he : e.about id = true) : (b.log ++ [e]).filter (Event.about id) = l ++ [e] := by
  rw [List.filter_append, hpast, List.filter_cons_of_pos he, List.filter_nil]

/-- A worker whose transition is refused fails. -/
theorem keeps_refused (h : Inv b) {k : Nat} {w : Worker} {t : Task} {e : Failure} (hw : b.workers[k]? = some w)
    (hne : w ≠ .done) (hfailing : ∀ e', w ≠ .failing e')
    (hallowed : Allowed b.tasks b.workers.length b.log (.transition t (some e)))
    (htracked : Tracked b.tasks (b.workers.set k (.failing e)) b.next (b.log ++ [.transition t (some e)])) :
    Inv { b with workers := b.workers.set k (.failing e), log := b.log ++ [.transition t (some e)] } := by
  apply h.advance hw hne [.transition t (some e)] htracked
  · exact h.flags_note (.transition t (some e)) ⟨by simp, rfl, rfl⟩
  · exact Nat.le_refl _
  · rfl
  · trivial
  · intro u e' he; cases List.mem_singleton.mp he; rfl
  · exact fun e' he => absurd he (hfailing e')
  · exact h.allowed_note hallowed

theorem keeps_taken (h : Inv b) {k : Nat} {t : Task} (hw : b.workers[k]? = some (.taken t)) (now : String)
    (answer : Option Failure) : Inv (b.work k now answer (.taken t)) := by
  obtain ⟨-, hpast⟩ := h.tracked.held k _ t hw rfl
  generalize hl : b.log.filter (Event.about t.id) = l at hpast
  cases hpast with
  | taken _ hrunning =>
    have htook : .took t ∈ b.log := of_hist hl List.mem_cons_self
    have hfirst : ∀ u err, u.id = t.id → .transition u err ∉ b.log := by
      intro u err hu hmem
      have := (mem_log (e := .transition u err) hl (by rw [Event.about, hu]; exact about_self)).mp hmem
      simp at this
    have hallowed : Allowed b.tasks b.workers.length b.log (.transition t answer) := by
      refine ⟨fun u err hu hmem => absurd hmem (hfirst u err hu), ?_⟩
      rw [if_pos hrunning]
      exact ⟨htook, hfirst⟩
    have hfilter := filter_only (e := .transition t answer) hl about_self
    cases answer with
    | none =>
      apply h.advance hw (by simp) [.transition t none]
      · apply h.tracked.move hw rfl (fun u hu => by cases hu; rfl) (only fun id => rfl)
        rw [hfilter]
        exact .entered rfl hrunning
      · exact h.flags_note (.transition t none) ⟨by simp, rfl, rfl⟩
      · exact Nat.le_refl _
      · rfl
      · trivial
      · intro u e he; cases List.mem_singleton.mp he
      · simp
      · exact h.allowed_note hallowed
    | some e =>
      apply h.keeps_refused hw (by simp) (by simp) hallowed
      apply h.tracked.move hw rfl (fun u hu => by cases hu) (only fun id => rfl)
      rw [hfilter]
      exact .unstarted rfl hrunning

theorem keeps_entered (h : Inv b) {k : Nat} {t : Task} (hw : b.workers[k]? = some (.entered t)) (now : String)
    (answer : Option Failure) : Inv (b.work k now answer (.entered t)) := by
  obtain ⟨-, hpast⟩ := h.tracked.held k _ t hw rfl
  generalize hl : b.log.filter (Event.about t.id) = l at hpast
  cases hpast with
  | entered _ hrunning =>
    apply h.advance hw nofun [.executes t]
    · apply h.tracked.move hw rfl (fun u hu => by cases hu; rfl) (only fun id => rfl)
      rw [filter_only (e := .executes t) hl about_self]
      exact .executing rfl hrunning
    · exact h.flags_note (.executes t) ⟨nofun, rfl, rfl⟩
    · exact Nat.le_refl _
    · rfl
    · trivial
    · intro u e he; cases List.mem_singleton.mp he
    · exact nofun
    · apply h.allowed_note
      refine ⟨hrunning, of_hist hl (by simp), ?_⟩
      intro u hu hmem
      have := (mem_log (e := .executes u) hl (by rw [Event.about, hu]; exact about_self)).mp hmem
      simp at this

theorem keeps_executing (h : Inv b) {k : Nat} {t : Task} (hw : b.workers[k]? = some (.executing t)) (now : String)
    (answer : Option Failure) : Inv (b.work k now answer (.executing t)) := by
  obtain ⟨-, hpast⟩ := h.tracked.held k _ t hw rfl
  generalize hl : b.log.filter (Event.about t.id) = l at hpast
  cases hpast with
  | executing _ hrunning =>
    apply h.advance hw nofun [.executed t answer]
    · apply h.tracked.move hw rfl (fun u hu => by cases hu; cases answer <;> rfl) (only fun id => rfl)
      rw [filter_only (e := .executed t answer) hl about_self]
      exact .executed rfl hrunning
    · exact h.flags_note (.executed t answer) ⟨nofun, rfl, rfl⟩
    · exact Nat.le_refl _
    · rfl
    · trivial
    · intro u e he; cases List.mem_singleton.mp he
    · exact nofun
    · apply h.allowed_note
      refine ⟨of_hist hl (by simp), ?_⟩
      intro u err hu hmem
      have := (mem_log (e := .executed u err) hl (by rw [Event.about, hu]; exact about_self)).mp hmem
      simp at this

theorem ended_id (t : Task) (err : Option Failure) : (t.ended err).id = t.id := by
  cases err <;> rfl

theorem settled_id (t : Task) (cancelled : Bool) (now : String) : (t.settled cancelled now).id = t.id := by
  unfold Task.settled
  split <;> rfl

theorem settled_state (t : Task) (cancelled : Bool) (now : String) :
    (t.settled cancelled now).state = if cancelled then .interrupted else t.state := by
  unfold Task.settled
  split <;> rfl

theorem ended_state (t : Task) (err : Option Failure) :
    (t.ended err).state = .complete ∨ (t.ended err).state = .failed := by
  cases err with
  | none => exact Or.inl rfl
  | some e => exact Or.inr rfl

theorem keeps_executed (h : Inv b) {k : Nat} {t : Task} {err : Option Failure}
    (hw : b.workers[k]? = some (.executed t err)) (now : String) (answer : Option Failure) :
    Inv (b.work k now answer (.executed t err)) := by
  obtain ⟨-, hpast⟩ := h.tracked.held k _ t hw rfl
  generalize hl : b.log.filter (Event.about t.id) = l at hpast
  have hkeep := @Inv.advance b h k _ (.settling (t.settled b.cancelled now) err) hw nofun [] b.next b.fatal b.cancelled
  simp only [List.append_nil] at hkeep
  have hstate : (t.settled b.cancelled now).state = .interrupted → b.cancelled = true ∨ t.state = .interrupted := by
    rw [settled_state]
    split
    · next hc => exact fun _ => Or.inl hc
    · exact Or.inr
  generalize hid : t.id = id at hl hpast
  cases hpast with
  | @executed u _ hu hrunning =>
    apply hkeep
    · have := @Tracked.move _ _ _ _ h.tracked _ _ (.settling ((u.ended err).settled b.cancelled now) err) _ hw rfl
        (fun x hx => by cases hx; rw [settled_id]) [] (fun e he => absurd he List.not_mem_nil)
      rw [List.append_nil] at this
      apply this
      rw [hid, hl]
      refine .settling hu hrunning (by rw [settled_id, ended_id, hu]) ?_
      rw [settled_state]
      split
      · exact Or.inr rfl
      · exact Or.inl rfl
    · exact ⟨h.flags.cancelled, h.flags.fatal, h.flags.context⟩
    · exact Nat.le_refl _
    · rfl
    · intro hint
      rcases hstate hint with hc | hc
      · exact h.flags.cancelled.mp hc
      · rcases ended_state u err with he | he
        · rw [he] at hc; cases hc
        · rw [he] at hc; cases hc
    · exact fun x e he => absurd he List.not_mem_nil
    · exact nofun
    · exact h.allowed

theorem after_task (err : Option Failure) : (Batch.after err).task = none := by
  unfold Batch.after
  split
  · split <;> rfl
  · rfl

theorem after_ne_done (err : Option Failure) : Batch.after err ≠ .done := by
  unfold Batch.after
  split
  · split <;> exact nofun
  · exact nofun

theorem after_standing (tasks next : Nat) (log : List Event) (err : Option Failure) :
    Standing tasks next log (Batch.after err) := by
  unfold Batch.after
  split
  · split <;> trivial
  · trivial

theorem keeps_settling (h : Inv b) {k : Nat} {t : Task} {err : Option Failure}
    (hw : b.workers[k]? = some (.settling t err)) (now : String) (answer : Option Failure) :
    Inv (b.work k now answer (.settling t err)) := by
  obtain ⟨-, hpast⟩ := h.tracked.held k _ t hw rfl
  have hstanding := h.standing _ (List.mem_of_getElem? hw)
  generalize hl : b.log.filter (Event.about t.id) = l at hpast
  cases hpast with
  | @settling u _ _ hu hrunning _ hstate =>
    have hne : t.state ≠ .running := by
      rcases hstate with hs | hs
      · rcases ended_state u err with he | he
        · simp [hs, he]
        · simp [hs, he]
      · simp [hs]
    have hallowed : Allowed b.tasks b.workers.length b.log (.transition t answer) := by
      refine ⟨?_, ?_⟩
      · intro v e hv hmem
        have hmem := (mem_log (e := .transition v e) hl (by rw [Event.about, hv]; exact about_self)).mp hmem
        obtain ⟨rfl, rfl⟩ : v = u ∧ e = none := by simpa using hmem
        exact ⟨hrunning, rfl⟩
      · rw [if_neg hne]
        refine Or.inl ⟨u, err, hu, of_hist hl (by simp), ?_⟩
        exact hstate.imp_right fun hs => ⟨hs, hstanding hs⟩
    have hpast : Past t.id none ((b.log ++ [Event.transition t answer]).filter (Event.about t.id)) := by
      rw [filter_only (e := .transition t answer) hl about_self]
      exact .settled hu hrunning rfl hstate
    cases answer with
    | none =>
      apply h.advance hw (by simp) [.transition t none]
      · apply h.tracked.move hw rfl (fun v hv => by rw [after_task] at hv; cases hv) (only fun id => rfl)
        rw [Worker.held, after_task]
        exact hpast
      · exact h.flags_note (.transition t none) ⟨by simp, rfl, rfl⟩
      · exact Nat.le_refl _
      · exact (if_neg (after_ne_done err)).symm
      · exact after_standing _ _ _ err
      · intro v e he; cases List.mem_singleton.mp he
      · simp
      · exact h.allowed_note hallowed
    | some e =>
      apply h.keeps_refused hw (by simp) (by simp) hallowed
      exact h.tracked.move hw rfl (fun v hv => by cases hv) (only fun id => rfl) hpast

theorem keeps_failing (h : Inv b) {k : Nat} {e : Failure} (hw : b.workers[k]? = some (.failing e)) (now : String)
    (answer : Option Failure) : Inv (b.work k now answer (.failing e)) := by
  apply h.advance hw nofun [.failed e]
  · exact (h.tracked.note fun d hd id => by rw [List.mem_singleton.mp hd]; rfl).idle hw rfl rfl
  · refine ⟨?_, ?_, ?_⟩
    · rw [List.mem_append, List.mem_singleton]
      exact ⟨fun hc => Or.inl (h.flags.cancelled.mp hc), fun hc => h.flags.cancelled.mpr (hc.resolve_right nofun)⟩
    · rw [List.filterMap_append, List.head?_append, ← h.flags.fatal]
      rfl
    · rw [List.filterMap_append, List.head?_append, ← h.flags.context]
      exact (Option.or_none).symm
  · exact Nat.le_refl _
  · rfl
  · exact ⟨e, List.mem_append_right _ (List.mem_singleton.mpr rfl)⟩
  · intro t e' he; cases List.mem_singleton.mp he
  · intro e' he
    cases he
    exact List.mem_singleton.mpr rfl
  · exact h.allowed_note trivial

theorem keeps_cancelling (h : Inv b) {k : Nat} (hw : b.workers[k]? = some .cancelling) (now : String)
    (answer : Option Failure) : Inv (b.work k now answer .cancelling) := by
  apply h.advance hw nofun [.cancelled, .left]
  · refine (h.tracked.note ?_).idle hw rfl rfl
    intro d hd id
    rcases List.mem_pair.mp hd with rfl | rfl
    · rfl
    · rfl
  · refine ⟨⟨fun _ => List.mem_append_right _ List.mem_cons_self, fun _ => rfl⟩, ?_, ?_⟩
    · rw [List.filterMap_append, List.head?_append, ← h.flags.fatal]
      exact (Option.or_none).symm
    · rw [List.filterMap_append, List.head?_append, ← h.flags.context]
      exact (Option.or_none).symm
  · exact Nat.le_refl _
  · rfl
  · exact Or.inl (List.mem_append_right _ List.mem_cons_self)
  · intro t e he
    rcases List.mem_pair.mp he with he | he
    · cases he
    · cases he
  · exact nofun
  · have hcancelled : Logged (Allowed b.tasks b.workers.length) (b.log ++ [.cancelled]) :=
      h.allowed_note (Or.inl (h.standing _ (List.mem_of_getElem? hw)))
    rw [List.append_cons]
    exact logged_concat.mpr ⟨hcancelled, trivial⟩

theorem keeps_ready (h : Inv b) {k : Nat} (hw : b.workers[k]? = some .ready) (now : String)
    (answer : Option Failure) : Inv (b.work k now answer .ready) := by
  rw [Batch.work]
  split
  · next t hcancelled ht =>
    apply h.advance hw nofun [.took (t.started now)]
    · exact h.tracked.take hw rfl ht rfl rfl
    · exact h.flags_note (.took (t.started now)) ⟨nofun, rfl, rfl⟩
    · exact Nat.le_succ _
    · rfl
    · trivial
    · intro u e he; cases List.mem_singleton.mp he
    · exact nofun
    · apply h.allowed_note
      refine ⟨⟨t, List.mem_of_getElem? ht, rfl⟩, ?_, ?_⟩
      · intro u hu hmem
        have hmem := (mem_log (e := .took u) (h.tracked.fresh b.next t (Nat.le_refl _) ht) (beq_iff_eq.mpr hu)).mp hmem
        exact List.not_mem_nil hmem
      · intro hmem
        rw [h.flags.cancelled.mpr hmem] at hcancelled
        cases hcancelled
  · next hno =>
    apply h.advance hw nofun [.left]
    · exact (h.tracked.note fun d hd id => by rw [List.mem_singleton.mp hd]; rfl).idle hw rfl rfl
    · exact h.flags_note .left ⟨nofun, rfl, rfl⟩
    · exact Nat.le_refl _
    · rfl
    · cases hc : b.cancelled with
      | true => exact Or.inl (List.mem_append_left _ (h.flags.cancelled.mp hc))
      | false =>
        refine Or.inr (Nat.le_of_not_lt fun hlt => ?_)
        exact hno _ hc (List.getElem?_eq_getElem hlt)
    · intro u e he; cases List.mem_singleton.mp he
    · exact nofun
    · exact h.allowed_note trivial

/-! ## The caller and the contexts keep it -/

/-- An event of the log was allowed when it happened. -/
theorem was_allowed (h : Inv b) {e : Event} (he : e ∈ b.log) :
    ∃ past, (∀ d ∈ past, d ∈ b.log) ∧ Allowed b.tasks b.workers.length past e := by
  obtain ⟨past, rest, heq⟩ := List.append_of_mem he
  refine ⟨past, ?_, h.allowed past e rest heq⟩
  intro d hd
  rw [heq]
  exact List.mem_append_left _ hd

theorem all_done (hall : b.workers.all (· == .done) = true) {w : Worker} (hw : w ∈ b.workers) : w = .done :=
  beq_iff_eq.mp (List.all_eq_true.mp hall w hw)

theorem crew_left (h : Inv b) (hall : b.workers.all (· == .done) = true) : b.log.count .left = b.workers.length := by
  rw [h.left]
  exact List.count_eq_length.mpr fun w hw => (all_done hall hw).symm

theorem cancelled_of_untaken (h : Inv b) (hall : b.workers.all (· == .done) = true) {t : Task}
    (ht : b.tasks[b.next]? = some t) : .cancelled ∈ b.log := by
  have hlt : b.next < b.tasks.length := (List.getElem?_eq_some_iff.mp ht).1
  have hcrew : b.workers ≠ [] := h.crew (List.ne_nil_of_length_pos (by omega))
  obtain ⟨w, hw⟩ := List.exists_mem_of_ne_nil _ hcrew
  have hstanding := h.standing w hw
  rw [all_done hall hw] at hstanding
  exact hstanding.resolve_right (by omega)

theorem keeps_drop (h : Inv b) (hall : b.workers.all (· == .done) = true) {t : Task} (ht : b.tasks[b.next]? = some t)
    (now : String) (answer : Option Failure) :
    Inv { b with
      next := b.next + 1, fatal := b.fatal.or answer
      log := b.log ++ .transition (t.dropped now) answer :: (answer.map Event.failed).toList } := by
  have hcancelled := h.cancelled_of_untaken hall ht
  have hfresh := h.tracked.fresh b.next t (Nat.le_refl _) ht
  have hplain : ∀ d ∈ (answer.map Event.failed).toList, ∃ e, d = .failed e := by
    intro d hd
    cases answer with
    | none => exact absurd hd List.not_mem_nil
    | some e => exact ⟨e, List.mem_singleton.mp hd⟩
  apply h.noted
  · rw [List.append_cons]
    apply (h.tracked.drop (u := t.dropped now) (fun w hw => by rw [all_done hall hw]; rfl) ht rfl rfl answer).note
    intro d hd id
    obtain ⟨e, rfl⟩ := hplain d hd
    rfl
  · refine ⟨⟨fun hc => List.mem_append_left _ (h.flags.cancelled.mp hc), fun _ => h.flags.cancelled.mpr hcancelled⟩,
      ?_, ?_⟩
    · rw [List.filterMap_append, List.head?_append, ← h.flags.fatal]
      cases answer <;> rfl
    · rw [List.filterMap_append, List.head?_append, ← h.flags.context]
      cases answer <;> exact (Option.or_none).symm
  · exact Nat.le_succ _
  · cases answer <;> rfl
  · intro u e he
    rcases List.mem_cons.mp he with he | he
    · cases he
      exact List.mem_cons_of_mem _ (List.mem_singleton.mpr rfl)
    · obtain ⟨e', he'⟩ := hplain _ he
      cases he'
  · rw [List.append_cons]
    have hdropped : Logged (Allowed b.tasks b.workers.length) (b.log ++ [.transition (t.dropped now) answer]) := by
      apply h.allowed_note
      refine ⟨?_, ?_⟩
      · intro u err hu hmem
        exact absurd ((mem_log (e := .transition u err) hfresh (beq_iff_eq.mpr hu)).mp hmem) List.not_mem_nil
      · rw [if_neg nofun]
        refine Or.inr ⟨?_, rfl, hcancelled, h.crew_left hall⟩
        intro u hu hmem
        exact List.not_mem_nil ((mem_log (e := .took u) hfresh (beq_iff_eq.mpr hu)).mp hmem)
    cases answer with
    | none =>
      rw [Option.map_none, Option.toList_none, List.append_nil]
      exact hdropped
    | some e => exact logged_concat.mpr ⟨hdropped, trivial⟩

section
variable (h : Inv b) (hall : b.workers.all (· == .done) = true) (hend : b.tasks[b.next]? = none)
include h hall hend

/-- When nobody works and nothing is left, each task has been settled, dropped or refused its start. -/
theorem settled_past {t : Task} (ht : t ∈ b.tasks) : Past t.id none (b.log.filter (Event.about t.id)) := by
  obtain ⟨i, hi⟩ := List.getElem?_of_mem ht
  have hlt : i < b.tasks.length := (List.getElem?_eq_some_iff.mp hi).1
  have hle := List.getElem?_eq_none_iff.mp hend
  apply h.tracked.free i t (by omega) hi
  intro k w u hw hu
  rw [all_done hall (List.mem_of_getElem? hw)] at hu
  cases hu

theorem all_ended {t : Task} (ht : t ∈ b.tasks) : Ended b.log t.id := by
  have hpast := h.settled_past hall hend ht
  generalize hl : b.log.filter (Event.about t.id) = l at hpast
  cases hpast with
  | @unstarted u e hu hrunning =>
    exact ⟨u, some e, hu, of_hist hl (by simp), Or.inr ⟨e, rfl⟩⟩
  | @settled v u err e hv hrunning hu hstate =>
    refine ⟨u, e, hu, of_hist hl (by simp), Or.inl ?_⟩
    rcases hstate with hs | hs
    · rcases ended_state v err with he | he
      · rw [hs, he]; exact nofun
      · rw [hs, he]; exact nofun
    · rw [hs]; exact nofun
  | @dropped u e hu hstate =>
    exact ⟨u, e, hu, of_hist hl (by simp), Or.inl (by rw [hstate]; exact nofun)⟩

theorem none_executing {t : Task} (ht : .executes t ∈ b.log) : ∃ err, .executed t err ∈ b.log := by
  obtain ⟨past, hpast, hrunning, htransition, -⟩ := h.was_allowed ht
  obtain ⟨past', hpast', hstart⟩ := h.was_allowed (hpast _ htransition)
  rw [Allowed, if_pos hrunning] at hstart
  obtain ⟨past'', -, ⟨u, hu, hid⟩, -⟩ := h.was_allowed (hpast' _ hstart.2.1)
  have htask := h.settled_past hall hend hu
  rw [hid] at htask
  generalize hl : b.log.filter (Event.about t.id) = l at htask
  have hmem := (mem_log (e := .executes t) hl about_self).mp ht
  cases htask with
  | unstarted => simp at hmem
  | @settled v u' err e hv =>
    have heq : t = v := by simpa using hmem
    exact ⟨err, of_hist hl (by rw [heq]; simp)⟩
  | dropped => simp at hmem

theorem all_succeeded (hfatal : b.fatal = none) (hcontext : b.context = none) {t : Task} (ht : t ∈ b.tasks) :
    Succeeded b.log t.id := by
  have hfailed : ∀ e, .failed e ∉ b.log := by
    intro e he
    rw [h.flags.fatal, List.head?_eq_none_iff] at hfatal
    have hmem : e ∈ b.log.filterMap Event.failure? := List.mem_filterMap.mpr ⟨_, he, rfl⟩
    rw [hfatal] at hmem
    exact List.not_mem_nil hmem
  have hcancelled : .cancelled ∉ b.log := by
    intro hc
    obtain ⟨past, hpast, ⟨e, he⟩ | ⟨err, he⟩⟩ := h.was_allowed hc
    · exact hfailed e (hpast _ he)
    · rw [h.flags.context, List.head?_eq_none_iff] at hcontext
      have hmem : err ∈ b.log.filterMap Event.contextEnd? := List.mem_filterMap.mpr ⟨_, hpast _ he, rfl⟩
      rw [hcontext] at hmem
      exact List.not_mem_nil hmem
  have hanswer : ∀ u e, .transition u (some e) ∉ b.log := by
    intro u e he
    rcases h.refused u e he with ⟨e', he'⟩ | ⟨e', he'⟩
    · exact hfailed e' he'
    · cases all_done hall he'
  have hinterrupted : ∀ u e, .transition u e ∈ b.log → u.state ≠ .interrupted := by
    intro u e he hu
    obtain ⟨past, hpast, -, hwhy⟩ := h.was_allowed he
    rw [if_neg (by rw [hu]; exact nofun), hu] at hwhy
    rcases hwhy with ⟨v, err, -, -, hs | ⟨-, hc⟩⟩ | ⟨-, -, hc, -⟩
    · rcases ended_state v err with hs' | hs'
      · rw [hs'] at hs; cases hs
      · rw [hs'] at hs; cases hs
    · exact hcancelled (hpast _ hc)
    · exact hcancelled (hpast _ hc)
  have hpast := h.settled_past hall hend ht
  generalize hl : b.log.filter (Event.about t.id) = l at hpast
  cases hpast with
  | @unstarted u e hu hrunning =>
    exact absurd (of_hist hl (by simp)) (hanswer u e)
  | @settled v u err e hv hrunning hu hstate =>
    have hmem : .transition u e ∈ b.log := of_hist hl (by simp)
    refine ⟨⟨v, hv, of_hist hl (by simp)⟩, u, hu, ?_, ?_⟩
    · rw [hstate.resolve_right (hinterrupted u e hmem)]
      exact ended_state v err
    · cases e with
      | none => exact hmem
      | some e => exact absurd hmem (hanswer u e)
  | @dropped u e hu hstate =>
    exact absurd hstate (hinterrupted u e (of_hist hl (by simp)))

theorem keeps_return : Inv (({ b with returned := true } : Batch).note [.returned b.outcome]) := by
  apply h.noted [.returned b.outcome]
  · exact h.tracked.note fun d hd id => by rw [List.mem_singleton.mp hd]; rfl
  · exact h.flags_note (.returned b.outcome) ⟨nofun, rfl, rfl⟩
  · exact Nat.le_refl _
  · rfl
  · intro t e he; cases List.mem_singleton.mp he
  · apply h.allowed_note
    refine ⟨h.crew_left hall, fun t ht => h.none_executing hall hend ht, fun t ht => h.all_ended hall hend ht, ?_⟩
    cases hfatal : b.fatal with
    | some e =>
      rw [Batch.outcome, hfatal]
      exact h.flags.fatal.symm.trans hfatal
    | none =>
      have hnone := hfatal
      rw [h.flags.fatal, List.head?_eq_none_iff] at hnone
      cases hcontext : b.context with
      | some err =>
        rw [Batch.outcome, hfatal, hcontext]
        exact ⟨hnone, h.flags.context.symm.trans hcontext⟩
      | none =>
        rw [Batch.outcome, hfatal, hcontext]
        exact fun t ht => h.all_succeeded hall hend hfatal hcontext ht

end

theorem keeps_finish (h : Inv b) (now : String) (answer : Option Failure) : Inv (b.finish now answer) := by
  unfold Batch.finish
  split
  · next hall =>
    split
    · next t ht => exact h.keeps_drop hall ht now answer
    · next hend => exact h.keeps_return hall hend
  · exact h

theorem keeps_cancel (h : Inv b) (hcontext : b.context = none) (err : String) :
    Inv (({ b with context := some err } : Batch).note [.contextEnded err]) := by
  apply h.noted [.contextEnded err]
  · exact h.tracked.note fun d hd id => by rw [List.mem_singleton.mp hd]; rfl
  · refine ⟨?_, ?_, ?_⟩
    · rw [List.mem_append, List.mem_singleton]
      exact ⟨fun hc => Or.inl (h.flags.cancelled.mp hc), fun hc => h.flags.cancelled.mpr (hc.resolve_right nofun)⟩
    · rw [List.filterMap_append, List.head?_append, ← h.flags.fatal]
      exact (Option.or_none).symm
    · rw [List.filterMap_append, List.head?_append, ← h.flags.context, hcontext]
      rfl
  · exact Nat.le_refl _
  · rfl
  · intro t e he; cases List.mem_singleton.mp he
  · exact h.allowed_note trivial

theorem keeps_propagate (h : Inv b) (hcontext : b.context.isSome = true) :
    Inv (({ b with cancelled := true } : Batch).note [.cancelled]) := by
  apply h.noted [.cancelled]
  · exact h.tracked.note fun d hd id => by rw [List.mem_singleton.mp hd]; rfl
  · refine ⟨⟨fun _ => List.mem_append_right _ List.mem_cons_self, fun _ => rfl⟩, ?_, ?_⟩
    · rw [List.filterMap_append, List.head?_append, ← h.flags.fatal]
      exact (Option.or_none).symm
    · rw [List.filterMap_append, List.head?_append, ← h.flags.context]
      exact (Option.or_none).symm
  · exact Nat.le_refl _
  · rfl
  · intro t e he; cases List.mem_singleton.mp he
  · apply h.allowed_note
    rw [h.flags.context, List.isSome_head?, ← List.isEmpty_eq_false_iff, List.isEmpty_eq_false_iff_exists_mem] at hcontext
    obtain ⟨err, herr⟩ := hcontext
    obtain ⟨e, he, hend⟩ := List.mem_filterMap.mp herr
    cases e with
    | contextEnded err' => exact Or.inr ⟨err', he⟩
    | _ => cases hend

theorem keeps_step (h : Inv b) (a : Act) : Inv (step b a) := by
  unfold step
  split
  · exact h
  · cases a with
    | work k now answer =>
      dsimp only
      split
      · next w hw =>
        cases w with
        | ready => exact h.keeps_ready hw now answer
        | taken t => exact h.keeps_taken hw now answer
        | entered t => exact h.keeps_entered hw now answer
        | executing t => exact h.keeps_executing hw now answer
        | executed t err => exact h.keeps_executed hw now answer
        | settling t err => exact h.keeps_settling hw now answer
        | failing e => exact h.keeps_failing hw now answer
        | cancelling => exact h.keeps_cancelling hw now answer
        | done => exact h
      · exact h
    | finish now answer => exact h.keeps_finish now answer
    | cancel err =>
      dsimp only
      split
      · exact h
      · next hcontext => exact h.keeps_cancel (Option.not_isSome_iff_eq_none.mp hcontext) err
    | propagate =>
      dsimp only
      split
      · next hcontext => exact h.keeps_propagate hcontext
      · exact h

end Inv

/-! ## Runs -/

theorem checkTasks_ok {seen : List String} {tasks : List Task} (h : checkTasks seen tasks = .ok ()) :
    (tasks.map Task.id).Nodup ∧ ∀ t ∈ tasks, t.id ∉ seen := by
  induction tasks generalizing seen with
  | nil => exact ⟨List.nodup_nil, fun t ht => absurd ht List.not_mem_nil⟩
  | cons t rest ih =>
    simp only [checkTasks, bind_eq_ok, refuseWhen_eq_ok, not_or] at h
    obtain ⟨-, -, -, ⟨-, hseen⟩, hrest⟩ := h
    obtain ⟨hnodup, hfresh⟩ := ih hrest
    refine ⟨List.nodup_cons.mpr ⟨?_, hnodup⟩, ?_⟩
    · intro hmem
      obtain ⟨u, hu, hid⟩ := List.mem_map.mp hmem
      exact hfresh u hu (hid ▸ List.mem_cons_self)
    · intro u hu
      rcases List.mem_cons.mp hu with rfl | hu
      · exact hseen
      · exact fun hmem => hfresh u hu (List.mem_cons_of_mem _ hmem)

theorem inv_start {tasks : List Task} {concurrency : Int} (h : checkBatch tasks concurrency = .ok ()) :
    Inv (start tasks concurrency) := by
  simp only [checkBatch, bind_eq_ok, refuseWhen_eq_ok, not_or] at h
  obtain ⟨-, ⟨hpos, -, -⟩, htasks⟩ := h
  have hidle : ∀ w ∈ (start tasks concurrency).workers, w = .ready := fun w hw => List.eq_of_mem_replicate hw
  have hheld : ∀ (k : Nat) w (t : Task), (start tasks concurrency).workers[k]? = some w → w.task ≠ some t := by
    intro k w t hw ht
    rw [hidle w (List.mem_of_getElem? hw)] at ht
    cases ht
  constructor
  case tracked =>
    refine ⟨?_, fun i t _ _ => rfl, fun k w t hw ht => absurd ht (hheld k w t hw),
      fun k j w v t u hw _ ht => absurd ht (hheld k w t hw), fun i t hi => absurd hi (Nat.not_lt_zero i)⟩
    intro i j t u ht hu hid
    have hi : i < (tasks.map Task.id).length := by
      rw [List.length_map]
      exact (List.getElem?_eq_some_iff.mp ht).1
    apply (List.getElem?_inj hi (checkTasks_ok htasks).1).mp
    rw [List.getElem?_map, List.getElem?_map]
    exact (congrArg (Option.map Task.id) ht).trans ((congrArg some hid).trans (congrArg (Option.map Task.id) hu).symm)
  case flags => exact ⟨⟨nofun, fun h => absurd h List.not_mem_nil⟩, rfl, rfl⟩
  case left =>
    have hdone : (start tasks concurrency).workers.count .done = 0 :=
      List.count_eq_zero.mpr fun hmem => nomatch hidle _ hmem
    rw [hdone]
    rfl
  case standing =>
    intro w hw
    rw [hidle w hw]
    trivial
  case crew =>
    intro hne hnil
    have hlen := congrArg List.length hnil
    have htask : 0 < tasks.length := List.length_pos_of_ne_nil hne
    rw [start, List.length_replicate, List.length_nil] at hlen
    omega
  case refused => exact fun t e he => absurd he List.not_mem_nil
  case allowed => exact .nil

/-- The tasks and the number of workers stay. -/
theorem step_same (b : Batch) (a : Act) : (step b a).tasks = b.tasks ∧ (step b a).workers.length = b.workers.length := by
  unfold step
  split
  · exact ⟨rfl, rfl⟩
  · cases a with
    | work k now answer =>
      dsimp only
      split
      · next w _ =>
        cases w with
        | ready =>
          rw [Batch.work]
          split <;> exact ⟨rfl, List.length_set⟩
        | done => exact ⟨rfl, rfl⟩
        | _ => exact ⟨rfl, List.length_set⟩
      · exact ⟨rfl, rfl⟩
    | finish now answer =>
      simp only [Batch.finish]
      split
      · split <;> exact ⟨rfl, rfl⟩
      · exact ⟨rfl, rfl⟩
    | cancel err =>
      dsimp only
      split <;> exact ⟨rfl, rfl⟩
    | propagate =>
      dsimp only
      split <;> exact ⟨rfl, rfl⟩

/-- Every schedule of a batch that is accepted keeps to the contract. -/
theorem runs_once {tasks : List Task} {concurrency : Int} (h : checkBatch tasks concurrency = .ok ()) (acts : List Act) :
    Logged (Allowed tasks (min concurrency.toNat tasks.length)) (run step (start tasks concurrency) acts).log := by
  have hinv : Inv (run step (start tasks concurrency) acts) :=
    run_invariant (fun b a hb => hb.keeps_step a) (inv_start h) acts
  have hsame : (run step (start tasks concurrency) acts).tasks = tasks ∧
      (run step (start tasks concurrency) acts).workers.length = min concurrency.toNat tasks.length := by
    apply run_invariant (P := fun b : Batch => b.tasks = tasks ∧ b.workers.length = min concurrency.toNat tasks.length)
    · intro b a hb
      exact ⟨(step_same b a).1.trans hb.1, (step_same b a).2.trans hb.2⟩
    · exact ⟨rfl, List.length_replicate⟩
  have hallowed := hinv.allowed
  rw [hsame.1, hsame.2] at hallowed
  exact hallowed

/-- Two tasks and two workers: the first is carried out, the second fails for good and ends the batch. -/
def sampleTasks : List Task :=
  [⟨"task_a", "A", "Read the first report.", .queued, "2026-01-01T00:00:00Z", "", "", ""⟩,
   ⟨"task_b", "B", "Read the second report.", .queued, "", "", "", ""⟩]

def sampleActs : List Act :=
  let now := "2026-01-01T00:00:01Z"
  let moves (k n : Nat) := List.replicate n (Act.work k now none)
  moves 0 2 ++ moves 1 3 ++ [.work 1 now (some ⟨"The store is gone.", true⟩)] ++ moves 0 1 ++ moves 1 4 ++ moves 0 4 ++
    [.finish now none]

theorem runs_once_sample :
    checkBatch sampleTasks 2 = .ok () ∧
      (run step (start sampleTasks 2) sampleActs).log.getLast? =
        some (.returned (.stopped ⟨"The store is gone.", true⟩)) ∧
      Logged (Allowed sampleTasks 2) (run step (start sampleTasks 2) sampleActs).log :=
  ⟨by decide +kernel, by decide +kernel, runs_once (by decide +kernel) sampleActs⟩

/-! ## Every schedule comes to its end -/

namespace Worker

/-- How far a worker is from the end of its loop. -/
def weight : Worker → Nat
  | .taken _ => 7
  | .entered _ => 6
  | .executing _ => 5
  | .executed _ _ => 4
  | .settling _ _ => 3
  | .failing _ => 2
  | .ready | .cancelling => 1
  | .done => 0

end Worker

/-- The moves a batch has left. -/
def Batch.remaining (b : Batch) : Nat :=
  8 * (b.tasks.length - b.next) + (b.workers.map Worker.weight).sum + if b.returned then 0 else 1

theorem weight_set {workers : List Worker} {k : Nat} {w : Worker} (hw : workers[k]? = some w) (v : Worker) :
    ((workers.set k v).map Worker.weight).sum + w.weight = (workers.map Worker.weight).sum + v.weight := by
  induction workers generalizing k with
  | nil => cases hw
  | cons x rest ih =>
    cases k with
    | zero =>
      cases hw
      simp only [List.set_cons_zero, List.map_cons, List.sum_cons]
      omega
    | succ k =>
      have := ih hw
      simp only [List.set_cons_succ, List.map_cons, List.sum_cons]
      omega

/-- A worker that has not left can move, and has less left to do then. -/
theorem work_lowers {b : Batch} (hb : b.returned = false) {k : Nat} {w : Worker} (hw : b.workers[k]? = some w)
    (hne : w ≠ .done) (now : String) (answer : Option Failure) : (b.work k now answer w).remaining < b.remaining := by
  have hset := weight_set hw
  have hafter : ∀ err, (Batch.after err).weight ≤ 2 := by
    intro err
    unfold Batch.after
    split
    · split
      · exact Nat.le_refl 2
      · exact Nat.le_succ 1
    · exact Nat.le_succ 1
  cases w with
  | ready =>
    rw [Batch.work]
    split
    · next t _ ht =>
      have hlt : b.next < b.tasks.length := (List.getElem?_eq_some_iff.mp ht).1
      have := hset (.taken (t.started now))
      simp only [Batch.remaining, Batch.become, Batch.note, Worker.weight, hb] at this ⊢
      omega
    · have := hset .done
      simp only [Batch.remaining, Batch.become, Batch.note, Worker.weight, hb] at this ⊢
      omega
  | taken t =>
    cases answer with
    | none =>
      have := hset (.entered t)
      simp only [Batch.work, Batch.remaining, Batch.become, Batch.note, Worker.weight, hb] at this ⊢
      omega
    | some e =>
      have := hset (.failing e)
      simp only [Batch.work, Batch.remaining, Batch.become, Batch.note, Worker.weight, hb] at this ⊢
      omega
  | settling t err =>
    cases answer with
    | none =>
      have := hset (Batch.after err)
      have hle := hafter err
      have hsettling : (Worker.settling t err).weight = 3 := rfl
      simp only [Batch.work, Batch.remaining, Batch.become, Batch.note, hb]
      omega
    | some e =>
      have := hset (.failing e)
      simp only [Batch.work, Batch.remaining, Batch.become, Batch.note, Worker.weight, hb] at this ⊢
      omega
  | entered t =>
    have := hset (.executing t)
    simp only [Batch.work, Batch.remaining, Batch.become, Batch.note, Worker.weight, hb] at this ⊢
    omega
  | executing t =>
    have := hset (.executed (t.ended answer) answer)
    simp only [Batch.work, Batch.remaining, Batch.become, Batch.note, Worker.weight, hb] at this ⊢
    omega
  | executed t err =>
    have := hset (.settling (t.settled b.cancelled now) err)
    simp only [Batch.work, Batch.remaining, Batch.become, Worker.weight, hb] at this ⊢
    omega
  | failing e =>
    have := hset .cancelling
    simp only [Batch.work, Batch.remaining, Batch.become, Batch.note, Worker.weight, hb] at this ⊢
    omega
  | cancelling =>
    have := hset .done
    simp only [Batch.work, Batch.remaining, Batch.become, Batch.note, Worker.weight, hb] at this ⊢
    omega
  | done => exact absurd rfl hne

/-- The moves that do something: one of a worker that has not left its loop, or one of the caller after all have. -/
def Enabled (b : Batch) : Act → Prop
  | .work k _ _ => b.returned = false ∧ ∃ w ∈ b.workers[k]?, w ≠ .done
  | .finish _ _ => b.returned = false ∧ b.workers.all (· == .done) = true
  | .cancel _ | .propagate => False

instance (b : Batch) (a : Act) : Decidable (Enabled b a) := by
  cases a <;> unfold Enabled <;> infer_instance

/-- Every move leaves fewer of them. -/
theorem enabled_lowers (b : Batch) (a : Act) (h : Enabled b a) : (step b a).remaining < b.remaining := by
  cases a with
  | work k now answer =>
    obtain ⟨hb, w, hw, hne⟩ := h
    have hk : b.workers[k]? = some w := hw
    simp only [step, hb, Bool.false_eq_true, if_false, hk]
    exact work_lowers hb hk hne now answer
  | finish now answer =>
    obtain ⟨hb, hall⟩ := h
    simp only [step, hb, Bool.false_eq_true, if_false, Batch.finish, hall, if_true]
    split
    · next t ht =>
      have hlt : b.next < b.tasks.length := (List.getElem?_eq_some_iff.mp ht).1
      simp only [Batch.remaining, hb]
      omega
    · simp only [Batch.remaining, Batch.note, hb, Bool.false_eq_true, if_false, if_true]
      omega
  | cancel err => exact h.elim
  | propagate => exact h.elim

theorem idle_step {b : Batch} {a : Act} (h : ¬ Enabled b a) (hcancel : ∀ err, a ≠ .cancel err)
    (hpropagate : a ≠ .propagate) : step b a = b := by
  unfold step
  split
  · rfl
  · next hb =>
    have hb := Bool.eq_false_iff.mpr hb
    cases a with
    | work k now answer =>
      dsimp only
      split
      · next w hw =>
        have hdone : w = .done := by
          by_contra hne
          exact h ⟨hb, w, hw, hne⟩
        rw [hdone, Batch.work]
      · rfl
    | finish now answer =>
      dsimp only
      rw [Batch.finish, if_neg fun hall => h ⟨hb, hall⟩]
    | cancel err => exact absurd rfl (hcancel err)
    | propagate => exact absurd rfl hpropagate

theorem step_remaining_le (b : Batch) (a : Act) : (step b a).remaining ≤ b.remaining := by
  by_cases h : Enabled b a
  · exact Nat.le_of_lt (enabled_lowers b a h)
  · cases a with
    | cancel err =>
      rw [step]
      split
      · exact Nat.le_refl _
      · split <;> exact Nat.le_refl _
    | propagate =>
      rw [step]
      split
      · exact Nat.le_refl _
      · split <;> exact Nat.le_refl _
    | _ => rw [idle_step h nofun nofun]

/-- Until `Run` returns, a worker or the caller can move. -/
theorem goes_on {b : Batch} (hb : b.returned = false) :
    (∃ k, ∀ now answer, Enabled b (.work k now answer)) ∨ ∀ now answer, Enabled b (.finish now answer) := by
  by_cases hall : b.workers.all (· == .done) = true
  · exact .inr fun _ _ => ⟨hb, hall⟩
  · rw [List.all_eq_true] at hall
    push Not at hall
    obtain ⟨w, hw, hne⟩ := hall
    obtain ⟨k, hk⟩ := List.getElem?_of_mem hw
    exact .inl ⟨k, fun _ _ => ⟨hb, w, hk, fun heq => hne (beq_iff_eq.mpr heq)⟩⟩

theorem start_remaining (tasks : List Task) (concurrency : Int) :
    (start tasks concurrency).remaining = 8 * tasks.length + min concurrency.toNat tasks.length + 1 := by
  have hsum : ((start tasks concurrency).workers.map Worker.weight).sum = min concurrency.toNat tasks.length := by
    simp [start, Worker.weight]
  rw [Batch.remaining, hsum]
  rfl

/-- No schedule of a batch, whatever its hooks answer and whenever it is cancelled, makes more moves than the tasks
and the workers allow; until `Run` returns there is a move to make, and every schedule can be brought to its return. -/
theorem comes_to_its_end (tasks : List Task) (concurrency : Int) (acts : List Act) :
    let b := run step (start tasks concurrency) acts
    countAlong step Enabled (start tasks concurrency) acts ≤ 8 * tasks.length + min concurrency.toNat tasks.length + 1 ∧
      (∀ a, ¬ Enabled b a → (∀ err, a ≠ .cancel err) → a ≠ .propagate → step b a = b) ∧
      (b.returned = true ∨ (∃ k, ∀ now answer, Enabled b (.work k now answer)) ∨
        ∀ now answer, Enabled b (.finish now answer)) ∧
      ∃ more, Along step Enabled b more ∧ (run step b more).returned = true := by
  have hgo : ∀ b : Batch, b.returned = true ∨ (∃ k, ∀ now answer, Enabled b (.work k now answer)) ∨
      ∀ now answer, Enabled b (.finish now answer) := by
    intro b
    cases hb : b.returned with
    | true => exact .inl rfl
    | false => exact .inr (goes_on hb)
  refine ⟨?_, fun a => idle_step, hgo _, ?_⟩
  · have := countAlong_le step_remaining_le enabled_lowers (start tasks concurrency) acts
    rw [start_remaining] at this
    omega
  · have hmove : ∀ b : Batch, b.returned = true ∨ ∃ a, Enabled b a := fun b =>
      (hgo b).imp_right fun hmove => hmove.elim (fun ⟨_, h⟩ => ⟨_, h "" none⟩) fun h => ⟨_, h "" none⟩
    have hreach := run_reaches enabled_lowers hmove
    exact hreach _

end Desk.Delegation
