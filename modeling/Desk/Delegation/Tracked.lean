import Desk.Delegation.Tasks

/-!
# The events of one task

A task is untouched, held by one worker, or finished with; where it stands says
which events it has had.
-/

namespace Desk.Delegation

namespace Event

def about (id : String) : Event → Bool
  | .took t | .transition t _ | .executes t | .executed t _ => t.id == id
  | _ => false

end Event

def Worker.task : Worker → Option Task
  | .taken t | .entered t | .executing t | .executed t _ | .settling t _ => some t
  | _ => none

/-- The worker, while it holds a task. -/
def Worker.held (w : Worker) : Option Worker := w.task.map fun _ => w

/-- What has happened to a task, by where the worker that holds it stands. -/
inductive Past (id : String) : Option Worker → List Event → Prop
  | taken {t : Task} : t.id = id → t.state = .running → Past id (some (.taken t)) [.took t]
  | entered {t : Task} : t.id = id → t.state = .running → Past id (some (.entered t)) [.took t, .transition t none]
  | executing {t : Task} : t.id = id → t.state = .running →
      Past id (some (.executing t)) [.took t, .transition t none, .executes t]
  | executed {t : Task} {err : Option Failure} : t.id = id → t.state = .running →
      Past id (some (.executed (t.ended err) err)) [.took t, .transition t none, .executes t, .executed t err]
  | settling {t u : Task} {err : Option Failure} : t.id = id → t.state = .running → u.id = id →
      (u.state = (t.ended err).state ∨ u.state = .interrupted) →
      Past id (some (.settling u err)) [.took t, .transition t none, .executes t, .executed t err]
  | unstarted {t : Task} {e : Failure} : t.id = id → t.state = .running →
      Past id none [.took t, .transition t (some e)]
  | settled {t u : Task} {err e : Option Failure} : t.id = id → t.state = .running → u.id = id →
      (u.state = (t.ended err).state ∨ u.state = .interrupted) →
      Past id none [.took t, .transition t none, .executes t, .executed t err, .transition u e]
  | dropped {u : Task} {e : Option Failure} : u.id = id → u.state = .interrupted → Past id none [.transition u e]

theorem mem_hist {log : List Event} {id : String} {e : Event} (h : e.about id = true) :
    e ∈ log ↔ e ∈ log.filter (Event.about id) := by
  rw [List.mem_filter]
  exact ⟨fun he => ⟨he, h⟩, And.left⟩

/-- The tasks with their events: those from `next` on have none, and no task is held twice. -/
structure Tracked (tasks : List Task) (workers : List Worker) (next : Nat) (log : List Event) : Prop where
  distinct : ∀ (i j : Nat) (t u : Task), tasks[i]? = some t → tasks[j]? = some u → t.id = u.id → i = j
  fresh : ∀ (i : Nat) (t : Task), next ≤ i → tasks[i]? = some t → log.filter (Event.about t.id) = []
  held : ∀ (k : Nat) w (t : Task), workers[k]? = some w → w.task = some t →
    (∃ (i : Nat) (u : Task), i < next ∧ tasks[i]? = some u ∧ u.id = t.id) ∧
      Past t.id (some w) (log.filter (Event.about t.id))
  alone : ∀ (k j : Nat) w v (t u : Task), workers[k]? = some w → workers[j]? = some v → w.task = some t →
    v.task = some u → t.id = u.id → k = j
  free : ∀ (i : Nat) (t : Task), i < next → tasks[i]? = some t →
    (∀ (k : Nat) w (u : Task), workers[k]? = some w → w.task = some u → u.id ≠ t.id) →
    Past t.id none (log.filter (Event.about t.id))

namespace Tracked

variable {tasks : List Task} {workers : List Worker} {next : Nat} {log : List Event}

theorem filter_note {evs : List Event} {id : String} (h : ∀ e ∈ evs, e.about id = false) :
    (log ++ evs).filter (Event.about id) = log.filter (Event.about id) := by
  have hnil : evs.filter (Event.about id) = [] := by
    rw [List.filter_eq_nil_iff]
    intro e he
    rw [h e he]
    exact Bool.false_ne_true
  rw [List.filter_append, hnil, List.append_nil]

/-- Events of no task. -/
theorem note (h : Tracked tasks workers next log) {evs : List Event} (hevs : ∀ e ∈ evs, ∀ id, e.about id = false) :
    Tracked tasks workers next (log ++ evs) where
  distinct := h.distinct
  fresh i t hi ht := by rw [filter_note fun e he => hevs e he t.id]; exact h.fresh i t hi ht
  held k w t hw ht := by rw [filter_note fun e he => hevs e he t.id]; exact h.held k w t hw ht
  alone := h.alone
  free i t hi ht hfree := by rw [filter_note fun e he => hevs e he t.id]; exact h.free i t hi ht hfree

theorem get_set {k j : Nat} {w v : Worker} (h : (workers.set k w)[j]? = some v) :
    j = k ∧ v = w ∨ j ≠ k ∧ workers[j]? = some v := by
  rw [List.getElem?_set] at h
  split at h
  · next hk =>
    split at h
    · exact Or.inl ⟨hk.symm, (Option.some.inj h).symm⟩
    · cases h
  · next hk => exact Or.inr ⟨fun hj => hk hj.symm, h⟩

/-- A worker without a task goes on without one. -/
theorem idle (h : Tracked tasks workers next log) {k : Nat} {w v : Worker} (hw : workers[k]? = some w)
    (hnone : w.task = none) (hv : v.task = none) : Tracked tasks (workers.set k v) next log where
  distinct := h.distinct
  fresh := h.fresh
  held j x t hx ht := by
    rcases get_set hx with ⟨-, rfl⟩ | ⟨-, hx'⟩
    · rw [hv] at ht; cases ht
    · exact h.held j x t hx' ht
  alone i j x y t u hx hy ht hu hid := by
    rcases get_set hx with ⟨-, rfl⟩ | ⟨-, hx'⟩
    · rw [hv] at ht; cases ht
    · rcases get_set hy with ⟨-, rfl⟩ | ⟨-, hy'⟩
      · rw [hv] at hu; cases hu
      · exact h.alone i j x y t u hx' hy' ht hu hid
  free i t hi ht hfree := by
    apply h.free i t hi ht
    intro j x u hx hu
    by_cases hj : j = k
    · rw [hj, hw] at hx
      cases hx
      rw [hnone] at hu; cases hu
    · exact hfree j x u (by rw [List.getElem?_set_ne fun heq => hj heq.symm]; exact hx) hu

/-- A worker goes on with its task, or is done with it. -/
theorem move (h : Tracked tasks workers next log) {k : Nat} {w v : Worker} {t : Task} (hw : workers[k]? = some w)
    (ht : w.task = some t) (hv : ∀ u, v.task = some u → u.id = t.id) {evs : List Event}
    (hevs : ∀ e ∈ evs, ∀ id, id ≠ t.id → e.about id = false)
    (hpast : Past t.id v.held ((log ++ evs).filter (Event.about t.id))) :
    Tracked tasks (workers.set k v) next (log ++ evs) := by
  obtain ⟨⟨i₀, u₀, hi₀, hu₀, hid₀⟩, -⟩ := h.held k w t hw ht
  have hother : ∀ {id}, id ≠ t.id → (log ++ evs).filter (Event.about id) = log.filter (Event.about id) :=
    fun hid => filter_note fun e he => hevs e he _ hid
  have hlt : k < workers.length := by
    obtain ⟨hlt, -⟩ := List.getElem?_eq_some_iff.mp hw
    exact hlt
  refine ⟨h.distinct, ?_, ?_, ?_, ?_⟩
  · intro i u hi hu
    rw [hother]
    · exact h.fresh i u hi hu
    · intro hid
      have := h.distinct i i₀ u u₀ hu hu₀ (hid.trans hid₀.symm)
      omega
  · intro j x u hx hu
    rcases get_set hx with ⟨-, rfl⟩ | ⟨hj, hx'⟩
    · rw [Worker.held, hu, ← hv u hu] at hpast
      exact ⟨⟨i₀, u₀, hi₀, hu₀, hid₀.trans (hv u hu).symm⟩, hpast⟩
    · rw [hother]
      · exact h.held j x u hx' hu
      · intro hid
        exact hj (h.alone j k x w u t hx' hw hu ht hid)
  · intro i j x y u u' hx hy hu hu' hid
    rcases get_set hx with ⟨hi, rfl⟩ | ⟨hi, hx'⟩
    · rcases get_set hy with ⟨hj, rfl⟩ | ⟨hj, hy'⟩
      · rw [hi, hj]
      · exact absurd (h.alone j k y w u' t hy' hw hu' ht (hid.symm.trans (hv u hu))) hj
    · rcases get_set hy with ⟨hj, rfl⟩ | ⟨hj, hy'⟩
      · exact absurd (h.alone i k x w u t hx' hw hu ht (hid.trans (hv u' hu'))) hi
      · exact h.alone i j x y u u' hx' hy' hu hu' hid
  · intro i u hi hu hfree
    by_cases hid : u.id = t.id
    · have hnone : v.task = none := by
        cases hvt : v.task with
        | none => rfl
        | some x =>
          refine absurd ((hv x hvt).trans hid.symm) (hfree k v x ?_ hvt)
          rw [List.getElem?_set_self hlt]
      rw [Worker.held, hnone] at hpast
      rw [hid]
      exact hpast
    · rw [hother hid]
      apply h.free i u hi hu
      intro j x y hx hy
      by_cases hj : j = k
      · rw [hj, hw] at hx
        cases hx
        rw [ht] at hy
        cases hy
        exact fun heq => hid heq.symm
      · exact hfree j x y (by rw [List.getElem?_set_ne fun heq => hj heq.symm]; exact hx) hy

/-- A worker takes the next task. -/
theorem take (h : Tracked tasks workers next log) {k : Nat} {w : Worker} {t u : Task} (hw : workers[k]? = some w)
    (hnone : w.task = none) (ht : tasks[next]? = some t) (hid : u.id = t.id) (hu : u.state = .running) :
    Tracked tasks (workers.set k (.taken u)) (next + 1) (log ++ [.took u]) := by
  have hevs : ∀ e ∈ [Event.took u], ∀ id, id ≠ t.id → e.about id = false := by
    intro e he id hne
    rw [List.mem_singleton.mp he, Event.about, hid]
    exact beq_false_of_ne fun heq => hne heq.symm
  have hother : ∀ {id}, id ≠ t.id → (log ++ [Event.took u]).filter (Event.about id) = log.filter (Event.about id) :=
    fun hne => filter_note fun e he => hevs e he _ hne
  have hpast : Past u.id (some (.taken u)) ((log ++ [Event.took u]).filter (Event.about u.id)) := by
    rw [List.filter_append, hid, h.fresh next t (Nat.le_refl _) ht, List.nil_append, ← hid,
      List.filter_eq_self.mpr fun e he => by rw [List.mem_singleton.mp he]; exact beq_self_eq_true _]
    exact .taken rfl hu
  have hheld : ∀ (j : Nat) x (y : Task), workers[j]? = some x → x.task = some y → y.id ≠ t.id := by
    intro j x y hx hy heq
    obtain ⟨⟨i, v, hi, hv, hvid⟩, -⟩ := h.held j x y hx hy
    have := h.distinct i next v t hv ht (hvid.trans heq)
    omega
  refine ⟨h.distinct, ?_, ?_, ?_, ?_⟩
  · intro i v hi hv
    rw [hother]
    · exact h.fresh i v (by omega) hv
    · intro heq
      have := h.distinct i next v t hv ht heq
      omega
  · intro j x y hx hy
    rcases get_set hx with ⟨-, rfl⟩ | ⟨-, hx'⟩
    · cases hy
      exact ⟨⟨next, t, Nat.lt_succ_self _, ht, hid.symm⟩, hpast⟩
    · rw [hother (hheld j x y hx' hy)]
      obtain ⟨⟨i, v, hi, hv, hvid⟩, hp⟩ := h.held j x y hx' hy
      exact ⟨⟨i, v, Nat.lt_succ_of_lt hi, hv, hvid⟩, hp⟩
  · intro i j x y v v' hx hy hv hv' heq
    rcases get_set hx with ⟨hi, rfl⟩ | ⟨hi, hx'⟩
    · rcases get_set hy with ⟨hj, rfl⟩ | ⟨hj, hy'⟩
      · rw [hi, hj]
      · cases hv
        exact absurd (heq.symm.trans hid) (hheld j y v' hy' hv')
    · rcases get_set hy with ⟨hj, rfl⟩ | ⟨hj, hy'⟩
      · cases hv'
        exact absurd (heq.trans hid) (hheld i x v hx' hv)
      · exact h.alone i j x y v v' hx' hy' hv hv' heq
  · intro i v hi hv hfree
    have hlt : k < workers.length := by
      obtain ⟨hlt, -⟩ := List.getElem?_eq_some_iff.mp hw
      exact hlt
    by_cases hnext : i = next
    · rw [hnext, ht] at hv
      cases hv
      exact absurd hid (hfree k (.taken u) u (List.getElem?_set_self hlt) rfl)
    · have hne : v.id ≠ t.id := fun heq => hnext (h.distinct i next v t hv ht heq)
      rw [hother hne]
      apply h.free i v (by omega) hv
      intro j x y hx hy
      by_cases hj : j = k
      · rw [hj, hw] at hx
        cases hx
        rw [hnone] at hy; cases hy
      · exact hfree j x y (by rw [List.getElem?_set_ne fun heq => hj heq.symm]; exact hx) hy

/-- The next task is dropped, when no worker holds any. -/
theorem drop (h : Tracked tasks workers next log) {t u : Task} (hidle : ∀ w ∈ workers, w.task = none)
    (ht : tasks[next]? = some t) (hid : u.id = t.id) (hu : u.state = .interrupted) (err : Option Failure) :
    Tracked tasks workers (next + 1) (log ++ [.transition u err]) := by
  have hother : ∀ {id}, id ≠ t.id → (log ++ [Event.transition u err]).filter (Event.about id) =
      log.filter (Event.about id) := by
    intro id hne
    apply filter_note
    intro e he
    rw [List.mem_singleton.mp he, Event.about, hid]
    exact beq_false_of_ne fun heq => hne heq.symm
  refine ⟨h.distinct, ?_, ?_, h.alone, ?_⟩
  · intro i v hi hv
    rw [hother]
    · exact h.fresh i v (by omega) hv
    · intro heq
      have := h.distinct i next v t hv ht heq
      omega
  · intro j x y hx hy
    rw [hidle x (List.mem_of_getElem? hx)] at hy
    cases hy
  · intro i v hi hv hfree
    by_cases hnext : i = next
    · rw [hnext, ht] at hv
      cases hv
      rw [List.filter_append, h.fresh next t (Nat.le_refl _) ht, List.nil_append, ← hid,
        List.filter_eq_self.mpr fun e he => by rw [List.mem_singleton.mp he]; exact beq_self_eq_true _]
      exact .dropped rfl hu
    · rw [hother fun heq => hnext (h.distinct i next v t hv ht heq)]
      exact h.free i v (by omega) hv hfree

end Tracked

end Desk.Delegation
