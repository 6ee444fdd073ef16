import RelayQ.Infrastructure.World
import RelayQ.Program.Pool
import Mathlib.Algebra.BigOperators.Group.List.Basic
import Mathlib.Algebra.GroupWithZero.Nat

/-! # The histories of concurrent calls

The log of a world names the actor of every event. In a pool each call acts under a name of its own,
so the log falls apart into the histories of its calls, and what is counted in it is the sum of what is
counted in these. Only events of interest are kept: `kind` says which, and as what.

* `Monitor.recording`: the monitor that keeps a call's history, newest event first.
* `Prog.Leads`: the histories a program leaves behind, as proof rules.
* `World.history`: what the log says of some actors.
* `Recorded`, `recordRule`: the two agree, in every reachable state. -/

namespace RelayQ

variable {ι α κ : Type} [DecidableEq κ]

/-- What an answered call counts as, if it is of interest. -/
abbrev EventKind (κ : Type) : Type := (o : Op) → Except PyExc o.Res → Option κ

/-- Record the calls of interest. -/
def Monitor.recording (kind : EventKind κ) : Monitor RelaySig (List κ) where
  guard _ _ := True
  next m o r := (kind o r).toList ++ m

/-! ## The history of a program -/

/-- The program leaves a history of this kind behind, unless something bad is in it. -/
def Prog.Leads (kind : EventKind κ) (bad : κ) (p : Py α) (m : List κ)
    (R : Except PyExc α → List κ → Prop) : Prop :=
  p.wp (.recording kind) (fun r m' => bad ∈ m' ∨ R r m') m

namespace Prog.Leads

omit [DecidableEq κ]

variable {β : Type} {kind : EventKind κ} {bad : κ} {p : Py α} {m : List κ}
  {R Q : Except PyExc α → List κ → Prop}

/-- What is bad stays so. -/
theorem of_mem (h : bad ∈ m) : p.Leads kind bad m R := by
  induction p generalizing m with
  | ret a => exact .inl h
  | raise e => exact .inl h
  | call o k ih => exact ⟨trivial, fun r => ih r (List.mem_append_right _ h)⟩

/-- A program that returns. -/
theorem ret {a : α} (h : R (.ok a) m) : (Prog.ret a : Py α).Leads kind bad m R := .inr h

/-- A program that raises. -/
theorem raise {e : PyExc} (h : R (.error e) m) : (Prog.raise e : Py α).Leads kind bad m R := .inr h

/-- Consequence rule. -/
theorem mono (hp : p.Leads kind bad m R) (hQ : ∀ r m', R r m' → Q r m') : p.Leads kind bad m Q :=
  wp_mono p (fun r m' h => h.imp_right (hQ r m')) hp

/-- Rule for sequencing. -/
theorem bind {f : α → Py β} {Q : Except PyExc β → List κ → Prop} (hp : p.Leads kind bad m R)
    (hok : ∀ a m', R (.ok a) m' → (f a).Leads kind bad m' Q)
    (herr : ∀ e m', R (.error e) m' → Q (.error e) m') : (p.bind f).Leads kind bad m Q := by
  refine wp_bind_of hp (fun a m' h => ?_) fun e m' h => ?_
  · rcases h with h | h
    · exact of_mem h
    · exact hok a m' h
  · exact h.imp_right (herr e m')

/-- Rule for one call. -/
theorem perform {o : Op} {R : Except PyExc o.Res → List κ → Prop}
    (h : ∀ r, kind o r = some bad ∨ R r ((kind o r).toList ++ m)) :
    (RelayQ.perform o).Leads kind bad m R := by
  refine ⟨trivial, fun r => ?_⟩
  have hend : Leads kind bad (Prog.ofExcept r : Py o.Res) ((kind o r).toList ++ m) R := by
    rcases h r with hs | hr
    · exact of_mem (by simp [hs])
    · cases r with
      | ok a => exact .ret hr
      | error e => exact .raise hr
  exact hend

end Prog.Leads

/-! ## The history in a log -/

/-- What the log says of the actors of interest. -/
def World.history (w : World) (kind : EventKind κ) (mine : Actor → Bool) : List κ :=
  (w.log.filter fun ev => mine ev.actor).filterMap fun ev => kind ev.op ev.res

variable {kind : EventKind κ} {w w' : World} {mine : Actor → Bool}

omit [DecidableEq κ] in
/-- One more event of an actor of interest. -/
theorem World.history_cons {a : Actor} {o : Op} {r : Except PyExc o.Res} {applied : Bool}
    {evicted : Nat} (h : w'.log = ⟨a, o, applied, evicted, r⟩ :: w.log) (ha : mine a = true) :
    w'.history kind mine = (kind o r).toList ++ w.history kind mine := by
  unfold World.history
  rw [h, List.filter_cons_of_pos (by simp [ha])]
  rw [List.filterMap_cons]
  cases hk : kind o r <;> rfl

omit [DecidableEq κ] in
/-- One more event of another actor. -/
theorem World.history_cons_of_not {ev : Event} (h : w'.log = ev :: w.log)
    (ha : mine ev.actor = false) : w'.history kind mine = w.history kind mine := by
  unfold World.history
  rw [h, List.filter_cons_of_neg (by simp [ha])]

omit [DecidableEq κ] in
/-- What the log says of some actors. -/
theorem World.mem_history {k : κ} : k ∈ w.history kind mine ↔
    ∃ ev ∈ w.log, mine ev.actor = true ∧ kind ev.op ev.res = some k := by
  simp only [World.history, List.mem_filterMap, List.mem_filter, and_assoc]

/-- How often it says so. -/
theorem World.count_history (w : World) (kind : EventKind κ) (mine : Actor → Bool) (k : κ) :
    (w.history kind mine).count k =
      w.log.countP fun ev => mine ev.actor && decide (kind ev.op ev.res = some k) := by
  unfold World.history
  induction w.log with
  | nil => rfl
  | cons ev log ih =>
    rw [List.countP_cons, ← ih, List.filter_cons]
    cases hm : mine ev.actor with
    | false => simp
    | true =>
      rw [if_pos rfl, List.filterMap_cons]
      cases hk : kind ev.op ev.res with
      | none => simp
      | some k' => simp [List.count_cons]

/-- Replacing one element changes a sum by what the two elements contribute. -/
theorem sum_map_set_add {β : Type} {f : β → Nat} {l : List β} {i : Nat} {x y : β}
    (hi : l[i]? = some x) : ((l.set i y).map f).sum + f x = (l.map f).sum + f y := by
  induction l generalizing i with
  | nil => cases hi
  | cons a l ih =>
    cases i with
    | zero =>
      obtain rfl := Option.some.inj hi
      simp only [List.set_cons_zero, List.map_cons, List.sum_cons]
      omega
    | succ i =>
      have hrest := ih hi
      simp only [List.set_cons_succ, List.map_cons, List.sum_cons]
      omega

variable {spec : PoolSpec relay ι α}

/-- The log is that of the calls: every event that is not foreign is of a call, each call has the
history that was recorded of it, and together they make up the whole. -/
structure Recorded (spec : PoolSpec relay ι α) (kind : EventKind κ) (w : World)
    (l : List (Proc RelaySig Nat ι α × List κ)) : Prop where
  known : ∀ ev ∈ w.log, ev.actor ≠ .foreign →
    ∃ n x, l[n]? = some x ∧ ev.actor = spec.actor n x.1.info
  own : ∀ n x, l[n]? = some x → w.history kind (· = spec.actor n x.1.info) = x.2
  total : ∀ k, (w.history kind (· ≠ .foreign)).count k = (l.map fun x => x.2.count k).sum

/-- Every call of a pool acts under a name of its own. -/
structure PoolSpec.Named (spec : PoolSpec relay ι α) : Prop where
  inj : ∀ n m i j, spec.actor n i = spec.actor m j → n = m
  ne_foreign : ∀ n i, spec.actor n i ≠ .foreign

namespace Recorded

variable {l : List (Proc RelaySig Nat ι α × List κ)}

/-- A call that starts has no history. -/
theorem start (h : Recorded spec kind w l) (hspec : spec.Named) (x : Proc RelaySig Nat ι α × List κ)
    (hx : x.2 = []) : Recorded spec kind w (l ++ [x]) where
  known ev hev hne := by
    obtain ⟨n, y, hy, hactor⟩ := h.known ev hev hne
    exact ⟨n, y, getElem?_concat_of hy x, hactor⟩
  own n y hy := by
    rcases getElem?_concat_cases hy with hy | ⟨rfl, rfl⟩
    · exact h.own n y hy
    · -- its name is that of no event
      have hnone : w.log.filter (fun ev => decide (ev.actor = spec.actor l.length y.1.info)) = [] := by
        refine List.filter_eq_nil_iff.mpr fun ev hev => ?_
        rw [decide_eq_true_eq]
        intro hactor
        obtain ⟨m, z, hz, hactor'⟩ := h.known ev hev (hactor ▸ hspec.ne_foreign _ _)
        have hm : l.length = m := hspec.inj _ _ _ _ (hactor.symm.trans hactor')
        have hlt := (List.getElem?_eq_some_iff.mp hz).1
        omega
      rw [World.history, hnone, hx]
      rfl
  total k := by
    rw [h.total k, List.map_append, List.sum_append, List.map_singleton, hx]
    rfl

/-- An answered call adds its event to its own history. -/
theorem answer (h : Recorded spec kind w l) (hspec : spec.Named) {i : Nat}
    {p q : Proc RelaySig Nat ι α} {m : List κ} {o : Op} {r : Except PyExc o.Res} {applied : Bool}
    {evicted : Nat} (hi : l[i]? = some (p, m)) (hq : q.info = p.info)
    (hlog : w'.log = ⟨spec.actor i p.info, o, applied, evicted, r⟩ :: w.log) :
    Recorded spec kind w' (l.set i (q, (kind o r).toList ++ m)) := by
  have hlt := (List.getElem?_eq_some_iff.mp hi).1
  refine ⟨fun ev hev hne => ?_, fun n x hx => ?_, fun k => ?_⟩
  · -- whose event it is: the call keeps its name
    rw [hlog] at hev
    rcases List.mem_cons.mp hev with rfl | hev
    · exact ⟨i, _, List.getElem?_set_self hlt, by rw [hq]⟩
    · obtain ⟨n, y, hy, hactor⟩ := h.known ev hev hne
      by_cases hn : i = n
      · subst hn
        obtain rfl := Option.some.inj (hi.symm.trans hy)
        exact ⟨i, _, List.getElem?_set_self hlt, by rw [hq]; exact hactor⟩
      · exact ⟨n, y, by rw [List.getElem?_set_ne hn, hy], hactor⟩
  · -- the history of each call: that of the others stays, since names differ
    rcases getElem?_set_cases hx with ⟨rfl, rfl⟩ | ⟨hn, hx⟩
    · have hown := h.own n _ hi
      rw [World.history_cons hlog (by simp [hq]), hq, hown]
    · have hother : spec.actor i p.info ≠ spec.actor n x.1.info := fun heq =>
        hn (hspec.inj _ _ _ _ heq).symm
      rw [World.history_cons_of_not hlog (by simp [hother]), h.own n x hx]
  · -- the total grows by what the one call adds
    have hset := sum_map_set_add (f := fun x : Proc RelaySig Nat ι α × List κ => x.2.count k)
      (y := (q, (kind o r).toList ++ m)) hi
    have hcount : (w'.history kind (· ≠ .foreign)).count k =
        (kind o r).toList.count k + (w.history kind (· ≠ .foreign)).count k := by
      rw [World.history_cons hlog (by simp [hspec.ne_foreign]), List.count_append]
    rw [hcount, h.total k]
    simp only [List.count_append] at hset
    omega

/-- What others do is not recorded. -/
theorem foreign (h : Recorded spec kind w l) {ev : Event} (hspec : spec.Named)
    (hlog : w'.log = ev :: w.log) (hev : ev.actor = .foreign) : Recorded spec kind w' l where
  known ev' hev' hne := by
    rw [hlog] at hev'
    rcases List.mem_cons.mp hev' with rfl | hev'
    · exact absurd hev hne
    · exact h.known ev' hev' hne
  own n x hx := by
    have hother : ev.actor ≠ spec.actor n x.1.info := hev ▸ (hspec.ne_foreign _ _).symm
    rw [World.history_cons_of_not hlog (by simp [hother]), h.own n x hx]
  total k := by
    rw [World.history_cons_of_not hlog (by simp [hev]), h.total k]

/-- Only the log and the names of the calls matter. -/
theorem congr (h : Recorded spec kind w l) (w' : World)
    (f : Proc RelaySig Nat ι α × List κ → Proc RelaySig Nat ι α × List κ) (hlog : w'.log = w.log)
    (hf : ∀ x, (f x).1.info = x.1.info ∧ (f x).2 = x.2) : Recorded spec kind w' (l.map f) where
  known ev hev hne := by
    obtain ⟨n, x, hx, hactor⟩ := h.known ev (hlog ▸ hev) hne
    exact ⟨n, f x, by rw [List.getElem?_map, hx]; rfl, by rw [(hf x).1]; exact hactor⟩
  own n y hy := by
    rw [List.getElem?_map, Option.map_eq_some_iff] at hy
    obtain ⟨x, hx, rfl⟩ := hy
    rw [World.history, hlog, (hf x).1, (hf x).2]
    exact h.own n x hx
  total k := by
    rw [World.history, hlog, List.map_map]
    refine (h.total k).trans (congrArg List.sum (List.map_congr_left fun x _ => ?_))
    rw [Function.comp_apply, (hf x).2]

end Recorded

/-- **The log records the calls**, whatever happens: as a proof rule. -/
def recordRule (hspec : spec.Named) (ok : PoolState relay ι α → PoolLabel relay ι → Prop)
    (post : ι → Except PyExc α → List κ → Prop)
    (code : ∀ info, (spec.code info).wp (.recording kind) (post info) []) :
    PoolRule spec (fun _ => .recording kind) ok (Recorded spec kind) where
  init _ := []
  post := post
  code := code
  start := fun h _ => h.start hspec _ rfl
  answer := by
    intro w l i p m o k ans w' r h _ hi _ _ hx
    obtain ⟨applied, evicted, hlog⟩ := World.exec_log hx
    exact h.answer hspec hi rfl hlog
  crash := by
    intro w l site h _
    exact h.congr (w.crash site) (fun x => (x.1.kill site, x.2)) rfl fun x =>
      ⟨Proc.kill_info .., rfl⟩
  env := by
    rintro w l (d | ⟨key, body⟩) w' h - hw
    · obtain rfl := Option.some.inj hw
      have hsame := h.congr { w with now := w.now + d } (fun x => x) rfl fun x => ⟨rfl, rfl⟩
      rwa [List.map_id'] at hsame
    · have hw' : (w.exec 0 .foreign (.redis (.xadd key body none)) (.ok 0)).map Prod.fst =
        some w' := hw
      obtain ⟨⟨w₁, r⟩, hx, rfl⟩ := Option.map_eq_some_iff.mp hw'
      obtain ⟨applied, evicted, hlog⟩ := World.exec_log hx
      exact h.foreign hspec hlog rfl

end RelayQ
