import RelayQ.Program.Machine
import RelayQ.Program.Transition
import Mathlib.Data.List.Count

/-! # Pools of concurrent programs

Any number of programs over one shared world, started at any time and answered in any order, one
call at a time. A program that dies with its site leaves the pool's world as the machine's `crash`
says. Processes keep their place in the list for ever, so that an index names one call of a
function for the whole run.

* `PoolSpec.step_cases` says everything a step can do.
* `PoolRule` is the proof rule for invariants of pools: it watches every call with a monitor and
  relates the world to the list of calls and their monitor states. -/

namespace RelayQ

/-- Replacing one element changes a count by what the two elements count. -/
theorem countP_set_add {β : Type} {p : β → Bool} {l : List β} {i : Nat} {x y : β}
    (hi : l[i]? = some x) :
    (l.set i y).countP p + (if p x then 1 else 0) = l.countP p + if p y then 1 else 0 := by
  obtain ⟨hlt, rfl⟩ := List.getElem?_eq_some_iff.mp hi
  have hle : (if p l[i] then 1 else 0) ≤ l.countP p := List.boole_getElem_le_countP hlt
  rw [List.countP_set hlt]
  omega

/-- At most one element counts exactly if no two places hold one that does. -/
theorem countP_le_one_iff {β : Type} {p : β → Bool} {l : List β} :
    l.countP p ≤ 1 ↔ ∀ (i j : Nat) (x y : β), l[i]? = some x → l[j]? = some y → p x = true →
      p y = true → i = j := by
  induction l with
  | nil => simp
  | cons a l ih =>
    rw [List.countP_cons]
    constructor
    · intro h i j x y hi hj hx hy
      -- beside a head that counts nothing else may
      have hrest : ∀ (k : Nat) (z : β), l[k]? = some z → p z = true → p a = true → False := by
        intro k z hk hz ha
        have hpos : 0 < l.countP p := List.countP_pos_iff.mpr ⟨z, List.mem_of_getElem? hk, hz⟩
        rw [if_pos ha] at h
        omega
      cases i with
      | zero =>
        obtain rfl := Option.some.inj hi
        cases j with
        | zero => rfl
        | succ j => exact (hrest j y hj hy hx).elim
      | succ i =>
        cases j with
        | zero =>
          obtain rfl := Option.some.inj hj
          exact (hrest i x hi hx hy).elim
        | succ j =>
          have hle : l.countP p ≤ 1 := Nat.le_of_add_right_le h
          rw [ih.mp hle i j x y hi hj hx hy]
    · intro h
      have hle : l.countP p ≤ 1 := ih.mpr fun i j x y hi hj hx hy =>
        Nat.succ.inj (h (i + 1) (j + 1) x y hi hj hx hy)
      split
      · rename_i ha
        have hzero : l.countP p = 0 := by
          refine List.countP_eq_zero.mpr fun y hmem hy => ?_
          obtain ⟨j, hj⟩ := List.mem_iff_getElem?.mp hmem
          cases h 0 (j + 1) a y rfl hj ha hy
        omega
      · omega

/-- Who comes last takes nobody's place. -/
theorem getElem?_concat_of {β : Type} {l : List β} {n : Nat} {z : β} (h : l[n]? = some z) (x : β) :
    (l ++ [x])[n]? = some z := by
  rw [List.getElem?_append_left (List.getElem?_eq_some_iff.mp h).1, h]

/-- Who stands in a place after one more has come stood there before, or has come and stands last. -/
theorem getElem?_concat_cases {β : Type} {l : List β} {n : Nat} {x z : β}
    (h : (l ++ [x])[n]? = some z) : l[n]? = some z ∨ n = l.length ∧ z = x := by
  rcases Nat.lt_or_ge n l.length with hlt | hge
  · exact .inl (List.getElem?_append_left hlt ▸ h)
  · rw [List.getElem?_append_right hge, List.getElem?_singleton] at h
    obtain ⟨hn, hz⟩ := Option.ite_none_right_eq_some.mp h
    exact .inr ⟨by omega, (Option.some.inj hz).symm⟩

/-- Who stands in a place after one was replaced is the new one in its place, or stood there
before. -/
theorem getElem?_set_cases {β : Type} {l : List β} {i j : Nat} {y z : β}
    (h : (l.set i y)[j]? = some z) : j = i ∧ z = y ∨ j ≠ i ∧ l[j]? = some z := by
  by_cases hij : i = j
  · subst hij
    rw [List.getElem?_set_self (by simpa using (List.getElem?_eq_some_iff.mp h).1)] at h
    exact .inl ⟨rfl, (Option.some.inj h).symm⟩
  · rw [List.getElem?_set_ne hij] at h
    exact .inr ⟨Ne.symm hij, h⟩

/-- One call of a function: its arguments, the site it runs at, and what is left of it; `none` once
it has died. -/
structure Proc (S : Signature) (Site ι α : Type) where
  /-- The arguments. -/
  info : ι
  /-- Where it runs. -/
  site : Site
  /-- The remaining program. -/
  prog : Option (Prog S α)

namespace Proc

variable {S : Signature} {Site ι α : Type}

/-- How the call ended, once it has. -/
def outcome (p : Proc S Site ι α) : Option (Except S.Exc α) := p.prog.bind Prog.outcome

/-- The call is still running: neither finished nor dead. -/
def running (p : Proc S Site ι α) : Bool :=
  match p.prog with
  | some (.call _ _) => true
  | _ => false

/-- The loss of a site ends the unfinished calls that run there. -/
def kill [DecidableEq Site] (site : Site) (p : Proc S Site ι α) : Proc S Site ι α :=
  if p.site = site ∧ p.running then { p with prog := none } else p

/-- A killed call was made with the same arguments. -/
@[simp] theorem kill_info [DecidableEq Site] (site : Site) (p : Proc S Site ι α) :
    (p.kill site).info = p.info := by
  unfold kill; split <;> rfl

/-- It ran at the same site. -/
@[simp] theorem kill_site [DecidableEq Site] (site : Site) (p : Proc S Site ι α) :
    (p.kill site).site = p.site := by
  unfold kill; split <;> rfl

/-- A call that survives the loss of a site is unchanged. -/
theorem kill_prog_eq_some [DecidableEq Site] {site : Site} {p : Proc S Site ι α} {q : Prog S α}
    (h : (p.kill site).prog = some q) : p.prog = some q ∧ p.kill site = p := by
  unfold kill at h ⊢
  split at h
  · cases h
  · rename_i hc
    exact ⟨h, if_neg hc⟩

/-- A call that runs after the loss of a site ran before. -/
theorem running_of_kill [DecidableEq Site] {site : Site} {p : Proc S Site ι α}
    (h : (p.kill site).running = true) : p.running = true := by
  unfold kill at h
  split at h
  · cases h
  · exact h

/-- A call suspended at a site does not survive its loss. -/
theorem site_ne_of_kill [DecidableEq Site] {site : Site} {p : Proc S Site ι α} {o : S.Op}
    {k : Except S.Exc (S.Res o) → Prog S α} (h : (p.kill site).prog = some (.call o k)) :
    p.site ≠ site := by
  intro hs
  obtain ⟨hp, hk⟩ := kill_prog_eq_some h
  have hr : p.running = true := by simp [running, hp]
  simp [kill, hs, hr] at h

/-- Writing back the call a place holds changes nothing. -/
theorem set_getElem?_self {procs : List (Proc S Site ι α)} {i : Nat} {p : Proc S Site ι α}
    (h : procs[i]? = some p) : procs.set i p = procs := by
  obtain ⟨hlt, rfl⟩ := List.getElem?_eq_some_iff.mp h
  exact List.set_getElem_self hlt

/-- A call that moves on keeps its arguments. -/
theorem infos_set {procs : List (Proc S Site ι α)} {i : Nat} {p q : Proc S Site ι α}
    (hi : procs[i]? = some p) (hq : q.info = p.info) :
    (procs.set i q).map info = procs.map info := by
  rw [List.map_set, hq, ← List.map_set, set_getElem?_self hi]

end Proc

/-- The pool: the shared world and every call ever started, in starting order. -/
structure PoolState {S : Signature} (M : Machine S) (ι α : Type) where
  /-- The shared world. -/
  world : M.World
  /-- The calls. -/
  procs : List (Proc S M.Site ι α)

/-- What can happen in a pool. -/
inductive PoolLabel {S : Signature} (M : Machine S) (ι : Type)
  /-- A new call starts at a site. -/
  | start (info : ι) (site : M.Site)
  /-- The call with this index gets its answer. -/
  | answer (i : Nat) (ans : M.Answer)
  /-- Everything at a site is lost. -/
  | crash (site : M.Site)
  /-- The environment moves. -/
  | env (e : M.Env)

/-- Which function the pool's calls run, and under which name each acts. -/
structure PoolSpec {S : Signature} (M : Machine S) (ι α : Type) where
  /-- The function. -/
  code : ι → Prog S α
  /-- The actor of the call with a given index. -/
  actor : Nat → ι → M.Actor

namespace PoolSpec

variable {S : Signature} {M : Machine S} [DecidableEq M.Site] {ι α : Type} (spec : PoolSpec M ι α)

/-- One step of a pool. -/
def step (s : PoolState M ι α) : PoolLabel M ι → Option (PoolState M ι α)
  | .start info site => some { s with procs := s.procs ++ [⟨info, site, some (spec.code info)⟩] }
  | .answer i ans =>
    match s.procs[i]? with
    | some p =>
      match p.prog with
      | some q => (M.step s.world p.site (spec.actor i p.info) q ans).map fun r =>
          ⟨r.1, s.procs.set i { p with prog := some r.2 }⟩
      | none => none
    | none => none
  | .crash site => some ⟨M.crash s.world site, s.procs.map (Proc.kill site)⟩
  | .env e => (M.env s.world e).map fun w => { s with world := w }

/-- **Inversion of a pool step.** -/
theorem step_cases {spec : PoolSpec M ι α} {s t : PoolState M ι α} {l : PoolLabel M ι}
    (h : spec.step s l = some t) :
    (∃ info site, l = .start info site ∧
      t = { s with procs := s.procs ++ [⟨info, site, some (spec.code info)⟩] }) ∨
    (∃ i ans p o k w r, l = .answer i ans ∧ s.procs[i]? = some p ∧ p.prog = some (.call o k) ∧
      M.exec s.world p.site (spec.actor i p.info) o ans = some (w, r) ∧
      t = ⟨w, s.procs.set i { p with prog := some (k r) }⟩) ∨
    (∃ site, l = .crash site ∧ t = ⟨M.crash s.world site, s.procs.map (Proc.kill site)⟩) ∨
    (∃ e w, l = .env e ∧ M.env s.world e = some w ∧ t = { s with world := w }) := by
  cases l with
  | start info site => exact .inl ⟨info, site, rfl, (Option.some.inj h).symm⟩
  | answer i ans =>
    simp only [step] at h
    split at h
    · rename_i p hp
      split at h
      · rename_i q hq
        obtain ⟨⟨w, q'⟩, hstep, rfl⟩ := Option.map_eq_some_iff.mp h
        obtain ⟨o, k, r, rfl, hx, rfl⟩ := Machine.step_eq_some.mp hstep
        exact .inr (.inl ⟨i, ans, p, o, k, w, r, rfl, hp, hq, hx, rfl⟩)
      · cases h
    · cases h
  | crash site => exact .inr (.inr (.inl ⟨site, rfl, (Option.some.inj h).symm⟩))
  | env e =>
    obtain ⟨w, hw, rfl⟩ := Option.map_eq_some_iff.mp h
    exact .inr (.inr (.inr ⟨e, w, rfl, hw, rfl⟩))

/-- Calls keep their place and their arguments. -/
theorem step_infos {spec : PoolSpec M ι α} {s t : PoolState M ι α} {l : PoolLabel M ι}
    (h : spec.step s l = some t) : s.procs.map Proc.info <+: t.procs.map Proc.info := by
  rcases step_cases h with ⟨info, site, rfl, rfl⟩ |
    ⟨i, ans, p, o, k, w, r, rfl, hi, hprog, hx, rfl⟩ | ⟨site, rfl, rfl⟩ | ⟨e, w, rfl, hw, rfl⟩
  · simp
  · have hset : (s.procs.set i { p with prog := some (k r) }).map Proc.info =
        s.procs.map Proc.info := Proc.infos_set hi rfl
    exact hset ▸ List.prefix_refl _
  · simp [Function.comp_def]
  · exact List.prefix_refl _

/-- Along a run the list of calls only grows. -/
theorem reaches_infos {spec : PoolSpec M ι α} {ok : PoolState M ι α → PoolLabel M ι → Prop}
    {s t : PoolState M ι α} (h : Reaches spec.step ok s t) :
    s.procs.map Proc.info <+: t.procs.map Proc.info := by
  induction h with
  | refl => exact List.prefix_refl _
  | tail _ _ hs ih => exact ih.trans (step_infos hs)

/-- Any number of calls can be started, one after the other. -/
theorem reaches_starts (spec : PoolSpec M ι α) {ok : PoolState M ι α → PoolLabel M ι → Prop}
    (site : M.Site) {infos : List ι} (hok : ∀ s, ∀ info ∈ infos, ok s (.start info site))
    (w : M.World) (procs : List (Proc S M.Site ι α)) :
    Reaches spec.step ok ⟨w, procs⟩
      ⟨w, procs ++ infos.map fun info => ⟨info, site, some (spec.code info)⟩⟩ := by
  induction infos generalizing procs with
  | nil => simpa using .refl
  | cons info infos ih =>
    have hrest := ih (fun s i hi => hok s i (by simp [hi]))
      (procs ++ [⟨info, site, some (spec.code info)⟩])
    rw [List.append_assoc] at hrest
    exact .head (hok _ info (by simp)) rfl hrest

/-- A started call can be run to its end, nobody else moving. -/
theorem reaches_runs {spec : PoolSpec M ι α} {ok : PoolState M ι α → PoolLabel M ι → Prop}
    {P : (o : S.Op) → M.Answer → Prop} {procs : List (Proc S M.Site ι α)} {i : Nat} {info : ι}
    {site : M.Site} (hok : ∀ s o ans, P o ans → ok s (.answer i ans)) {w w' : M.World}
    {q : Prog S α} {out : Except S.Exc α}
    (h : M.Runs P site (spec.actor i info) w q w' out) (hi : procs[i]? = some ⟨info, site, some q⟩) :
    Reaches spec.step ok ⟨w, procs⟩ ⟨w', procs.set i ⟨info, site, some (.ofExcept out)⟩⟩ := by
  induction h generalizing procs with
  | ret => exact (Proc.set_getElem?_self hi).symm ▸ .refl
  | raise => exact (Proc.set_getElem?_self hi).symm ▸ .refl
  | @call w w₁ w₂ o k ans r out hP hx _ ih =>
    have hlt : i < procs.length := (List.getElem?_eq_some_iff.mp hi).1
    refine .head (l := .answer i ans) (hok _ _ _ hP)
      (t := ⟨w₁, procs.set i ⟨info, site, some (k r)⟩⟩) ?_ ?_
    · simp [step, hi, Machine.step, hx]
    · have hrest : Reaches spec.step ok ⟨w₁, procs.set i ⟨info, site, some (k r)⟩⟩
          ⟨w₂, (procs.set i ⟨info, site, some (k r)⟩).set i ⟨info, site, some (.ofExcept out)⟩⟩ :=
        ih (by simp [hlt])
      rwa [List.set_set] at hrest

end PoolSpec

/-! ## Invariants -/

/-- A call that ends its program is no longer running. -/
theorem Proc.running_iff {S : Signature} {Site ι α : Type} (p : Proc S Site ι α) :
    p.running = true ↔ ∃ o k, p.prog = some (.call o k) := by
  unfold Proc.running
  cases hp : p.prog with
  | none => simp
  | some q => cases q <;> simp

/-- The obligations of an invariant `I` over runs whose labels satisfy `ok`. Each call is watched by
the monitor of its arguments; `I` relates the world to the calls with their monitor states. -/
structure PoolRule {S : Signature} {M : Machine S} [DecidableEq M.Site] {ι α : Type}
    (spec : PoolSpec M ι α) {N : Type} (mon : ι → Monitor S N)
    (ok : PoolState M ι α → PoolLabel M ι → Prop)
    (I : M.World → List (Proc S M.Site ι α × N) → Prop) where
  /-- The monitor state a call starts in. -/
  init : ι → N
  /-- What holds of a call that has ended. -/
  post : ι → Except S.Exc α → N → Prop := fun _ _ _ => True
  /-- The function behaves. -/
  code : ∀ info, (spec.code info).wp (mon info) (post info) (init info)
  start : ∀ {w l info site}, I w l → ok ⟨w, l.map Prod.fst⟩ (.start info site) →
    I w (l ++ [(⟨info, site, some (spec.code info)⟩, init info)])
  answer : ∀ {w l i p m o k ans w' r}, I w l → ok ⟨w, l.map Prod.fst⟩ (.answer i ans) →
    l[i]? = some (p, m) → p.prog = some (.call o k) → (mon p.info).guard m o →
    M.exec w p.site (spec.actor i p.info) o ans = some (w', r) →
    I w' (l.set i ({ p with prog := some (k r) }, (mon p.info).next m o r))
  crash : ∀ {w l site}, I w l → ok ⟨w, l.map Prod.fst⟩ (.crash site) →
    I (M.crash w site) (l.map fun x => (x.1.kill site, x.2))
  env : ∀ {w l e w'}, I w l → ok ⟨w, l.map Prod.fst⟩ (.env e) → M.env w e = some w' → I w' l

namespace PoolRule

variable {S : Signature} {M : Machine S} [DecidableEq M.Site] {ι α N : Type}
  {spec : PoolSpec M ι α} {mon : ι → Monitor S N}
  {ok : PoolState M ι α → PoolLabel M ι → Prop}
  {I : M.World → List (Proc S M.Site ι α × N) → Prop}

/-- The calls of a state with monitor states that explain them. -/
structure Explains (mon : ι → Monitor S N) (post : ι → Except S.Exc α → N → Prop)
    (l : List (Proc S M.Site ι α × N)) (s : PoolState M ι α) : Prop where
  procs : l.map Prod.fst = s.procs
  behaves : ∀ x ∈ l, ∀ q, x.1.prog = some q → q.wp (mon x.1.info) (post x.1.info) x.2

omit [DecidableEq M.Site] in
/-- A call that has ended satisfies its postcondition. -/
theorem Explains.outcome {post : ι → Except S.Exc α → N → Prop}
    {l : List (Proc S M.Site ι α × N)} {s : PoolState M ι α} (h : Explains mon post l s)
    {x : Proc S M.Site ι α × N} (hx : x ∈ l) {out : Except S.Exc α}
    (ho : x.1.outcome = some out) : post x.1.info out x.2 := by
  obtain ⟨q, hq, hqo⟩ := Option.bind_eq_some_iff.mp ho
  have hwp := h.behaves x hx q hq
  cases q with
  | ret v =>
    obtain rfl := Option.some.inj hqo
    exact hwp
  | raise e =>
    obtain rfl := Option.some.inj hqo
    exact hwp
  | call o k => cases hqo

/-- The invariant as a property of states. -/
def Holds (mon : ι → Monitor S N) (post : ι → Except S.Exc α → N → Prop)
    (I : M.World → List (Proc S M.Site ι α × N) → Prop) (s : PoolState M ι α) : Prop :=
  ∃ l, Explains mon post l s ∧ I s.world l

/-- **Step lemma.** -/
theorem step (rule : PoolRule spec mon ok I) {s t : PoolState M ι α} {lbl : PoolLabel M ι}
    (h : Holds mon rule.post I s) (hok : ok s lbl) (hs : spec.step s lbl = some t) :
    Holds mon rule.post I t := by
  obtain ⟨l, ⟨hp, hb⟩, hI⟩ := h
  have hok' : ok ⟨s.world, l.map Prod.fst⟩ lbl := by rw [hp]; exact hok
  rcases PoolSpec.step_cases hs with ⟨info, site, rfl, rfl⟩ |
    ⟨i, ans, p, o, k, w, r, rfl, hi, hprog, hx, rfl⟩ | ⟨site, rfl, rfl⟩ | ⟨e, w, rfl, hw, rfl⟩
  · refine ⟨_, ⟨by simp [hp], fun x hx q hq => ?_⟩, rule.start hI hok'⟩
    rcases List.mem_append.mp hx with hx | hx
    · exact hb x hx q hq
    · obtain rfl := List.mem_singleton.mp hx
      obtain rfl := Option.some.inj hq
      exact rule.code info
  · rw [← hp, List.getElem?_map, Option.map_eq_some_iff] at hi
    obtain ⟨⟨p, m⟩, hi, rfl⟩ := hi
    obtain ⟨hg, hwp⟩ := hb _ (List.mem_of_getElem? hi) _ hprog
    refine ⟨_, ⟨by simp [hp, List.map_set], fun x hx' q hq => ?_⟩,
      rule.answer hI hok' hi hprog hg hx⟩
    rcases List.mem_or_eq_of_mem_set hx' with hx' | rfl
    · exact hb x hx' q hq
    · obtain rfl := Option.some.inj hq
      exact hwp r
  · refine ⟨_, ⟨by simp [← hp], fun x hx q hq => ?_⟩, rule.crash hI hok'⟩
    obtain ⟨y, hy, rfl⟩ := List.mem_map.mp hx
    obtain ⟨hprog, hkill⟩ := Proc.kill_prog_eq_some hq
    simp only [hkill]
    exact hb y hy q hprog
  · exact ⟨l, ⟨hp, hb⟩, rule.env hI hok' hw⟩

/-- **Run lemma.** -/
theorem run (rule : PoolRule spec mon ok I) {s t : PoolState M ι α}
    (h : Reaches spec.step ok s t) (h₀ : Holds mon rule.post I s) : Holds mon rule.post I t :=
  h.invariant (fun _ _ _ hs hok hstep => rule.step hs hok hstep) h₀

omit [DecidableEq M.Site] in
/-- A pool without calls is explained by the empty list. -/
theorem holds_nil {post : ι → Except S.Exc α → N → Prop} {w : M.World} (h : I w []) :
    Holds mon post I (⟨w, []⟩ : PoolState M ι α) :=
  ⟨[], ⟨rfl, by simp⟩, h⟩

end PoolRule

end RelayQ
