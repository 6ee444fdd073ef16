import RelayQ.Program.Prog

/-! # Plays

A program is played against an environment, which answers each call as a function of the calls it has
answered before. Some calls may be *hidden*: their answers tell nothing, and the environment answers
the others as if the hidden ones had not been made.

* `Prog.play`: the calls that are made, newest first, and the end.
* `Prog.Hides`, `Prog.Hides.play_eq`: a program that is another one but for hidden calls plays as this
  one does, as far as it can be seen.
* `Prog.Gives`: what a play returns, as proof rules. -/

namespace RelayQ

/-- An answered call. -/
abbrev Signature.Answered (S : Signature) : Type := (o : S.Op) × Except S.Exc (S.Res o)

/-- An environment: the answer to a call, given those before it, newest first. -/
abbrev Signature.Env (S : Signature) : Type :=
  List S.Answered → (o : S.Op) → Except S.Exc (S.Res o)

/-- The answered calls that are not hidden. -/
def visible {S : Signature} (hidden : S.Op → Bool) (h : List S.Answered) : List S.Answered :=
  h.filter fun c => !hidden c.1

/-- The environment answers what is visible as `env₀` does, and what is hidden in one of the ways that
tell nothing. -/
structure Signature.Env.Extends {S : Signature} (env env₀ : S.Env) (hidden : S.Op → Bool)
    (silent : (o : S.Op) → Except S.Exc (S.Res o) → Prop) : Prop where
  visible : ∀ h o, hidden o = false → env h o = env₀ (RelayQ.visible hidden h) o
  hidden : ∀ h o, hidden o = true → silent o (env h o)

namespace Prog

variable {S : Signature} {α β : Type} {hidden : S.Op → Bool}
  {silent : (o : S.Op) → Except S.Exc (S.Res o) → Prop} {env env₀ : S.Env}
  {p q : Prog S α} {h : List S.Answered}

/-- Play a program from a history on. -/
def play (env : S.Env) : Prog S α → List S.Answered → List S.Answered × Except S.Exc α
  | .ret a, h => (h, .ok a)
  | .raise e, h => (h, .error e)
  | .call o k, h => (k (env h o)).play env (⟨o, env h o⟩ :: h)

/-- To return asks nothing. -/
@[simp] theorem play_ret (a : α) : (Prog.ret a : Prog S α).play env h = (h, .ok a) := rfl

/-- To raise asks nothing. -/
@[simp] theorem play_raise (e : S.Exc) : (Prog.raise e : Prog S α).play env h = (h, .error e) := rfl

/-- A sequence plays its parts one after the other. -/
theorem play_bind (p : Prog S α) (f : α → Prog S β) :
    (p.bind f).play env h = match p.play env h with
      | (h', .ok a) => (f a).play env h'
      | (h', .error e) => (h', .error e) := by
  induction p generalizing h with
  | ret a => rfl
  | raise e => rfl
  | call o k ih => exact ih _

/-- A handler plays after what it catches. -/
theorem play_tryExcept (p : Prog S α) (g : S.Exc → Prog S α) :
    (p.tryExcept g).play env h = match p.play env h with
      | (h', .ok a) => (h', .ok a)
      | (h', .error e) => (g e).play env h' := by
  induction p generalizing h with
  | ret a => rfl
  | raise e => rfl
  | call o k ih => exact ih _

/-- A call plays its answer. -/
theorem play_perform (o : S.Op) :
    (perform o).play env h = (⟨o, env h o⟩ :: h, env h o) := by
  change (ofExcept (env h o)).play env (⟨o, env h o⟩ :: h) = _
  cases env h o <;> rfl

/-! ## Hidden calls -/

/-- The one program is the other, but for hidden calls whose answers make no difference. -/
inductive Hides (hidden : S.Op → Bool) (silent : (o : S.Op) → Except S.Exc (S.Res o) → Prop) :
    Prog S α → Prog S α → Prop
  | ret (a : α) : Hides hidden silent (.ret a) (.ret a)
  | raise (e : S.Exc) : Hides hidden silent (.raise e) (.raise e)
  /-- Both make a visible call. -/
  | both {o : S.Op} {k k' : Except S.Exc (S.Res o) → Prog S α} (ho : hidden o = false)
      (hk : ∀ r, Hides hidden silent (k r) (k' r)) : Hides hidden silent (.call o k) (.call o k')
  /-- The one makes a hidden call. -/
  | hide {o : S.Op} {k : Except S.Exc (S.Res o) → Prog S α} {q : Prog S α} (ho : hidden o = true)
      (hk : ∀ r, silent o r → Hides hidden silent (k r) q) : Hides hidden silent (.call o k) q

namespace Hides

/-- A program without hidden calls. -/
theorem of_calls (hp : p.Calls fun o => hidden o = false) : p.Hides hidden silent p := by
  induction p with
  | ret a => exact .ret a
  | raise e => exact .raise e
  | call o k ih =>
    obtain ⟨ho, hk⟩ := Calls.call_iff.mp hp
    exact .both ho fun r => ih r (hk r)

/-- Rule for one call. -/
theorem perform {o : S.Op} (ho : hidden o = false) :
    (Prog.perform o).Hides hidden silent (Prog.perform o) :=
  of_calls (.perform ho)

/-- Rule for sequencing. -/
theorem bind {f g : α → Prog S β} (hp : p.Hides hidden silent q)
    (hf : ∀ a, (f a).Hides hidden silent (g a)) : (p.bind f).Hides hidden silent (q.bind g) := by
  induction hp with
  | ret a => exact hf a
  | raise e => exact .raise e
  | both ho _ ih => exact .both ho ih
  | hide ho _ ih => exact .hide ho ih

/-- Rule for `try/except`. -/
theorem tryExcept {f g : S.Exc → Prog S α} (hp : p.Hides hidden silent q)
    (hf : ∀ e, (f e).Hides hidden silent (g e)) :
    (p.tryExcept f).Hides hidden silent (q.tryExcept g) := by
  induction hp with
  | ret a => exact .ret a
  | raise e => exact hf e
  | both ho _ ih => exact .both ho ih
  | hide ho _ ih => exact .hide ho ih

/-- **What is hidden makes no difference**: the program ends as the other one, and what can be seen of
its calls are the calls of the other one. -/
theorem play_eq (hp : p.Hides hidden silent q) (henv : env.Extends env₀ hidden silent)
    (h : List S.Answered) :
    (visible hidden (p.play env h).1, (p.play env h).2) = q.play env₀ (visible hidden h) := by
  induction hp generalizing h with
  | ret a => rfl
  | raise e => rfl
  | @both o k k' ho _ ih =>
    -- what can be seen of the histories stays the same, and so the answers do
    have hvisible : visible hidden (⟨o, env h o⟩ :: h) =
        ⟨o, env₀ (visible hidden h) o⟩ :: visible hidden h := by
      rw [visible, List.filter_cons_of_pos (by simp [ho]), ← henv.visible h o ho]
      rfl
    rw [play, ih, hvisible, play, henv.visible h o ho]
  | @hide o k q ho _ ih =>
    have hvisible : visible hidden (⟨o, env h o⟩ :: h) = visible hidden h := by
      rw [visible, List.filter_cons_of_neg (by simp [ho])]
      rfl
    rw [play, ih _ (henv.hidden h o ho), hvisible]

end Hides

/-- Calls that are not hidden are all visible. -/
theorem filter_visible {kind : S.Op → Bool} (hkind : ∀ o, kind o = true → hidden o = false) :
    ((visible hidden h).filter fun c => kind c.1) = h.filter fun c => kind c.1 := by
  rw [visible, List.filter_filter]
  refine List.filter_congr fun c _ => ?_
  cases hc : kind c.1 with
  | false => rfl
  | true => simp [hkind c.1 hc]

/-! ## What a play returns -/

/-- Calls of no interest leave the calls of interest as they were. -/
theorem play_filter {kind : S.Op → Bool} (hp : p.Calls fun o => kind o = false) :
    ((p.play env h).1.filter fun c => kind c.1) = h.filter fun c => kind c.1 := by
  induction p generalizing h with
  | ret a => rfl
  | raise e => rfl
  | call o k ih =>
    obtain ⟨ho, hk⟩ := Calls.call_iff.mp hp
    rw [play, ih _ (hk _), List.filter_cons_of_neg (by simp [ho])]

/-- Played from this history the program returns, and this is so of the value and the history it
leaves. -/
def Gives (env : S.Env) (p : Prog S α) (h : List S.Answered) (Q : α → List S.Answered → Prop) : Prop :=
  ∃ a h', p.play env h = (h', .ok a) ∧ Q a h'

namespace Gives

variable {R Q : α → List S.Answered → Prop}

/-- A program that returns. -/
theorem ret {a : α} (hQ : Q a h) : Gives env (Prog.ret a) h Q := ⟨a, h, rfl, hQ⟩

/-- Rule for one call. -/
theorem perform {o : S.Op} {a : S.Res o} {Q : S.Res o → List S.Answered → Prop}
    (ho : env h o = .ok a) (hQ : Q a (⟨o, .ok a⟩ :: h)) : Gives env (Prog.perform o) h Q :=
  ⟨a, _, by rw [play_perform, ho], hQ⟩

/-- Rule for sequencing. -/
theorem bind {f : α → Prog S β} {Q : β → List S.Answered → Prop} (hp : Gives env p h R)
    (hf : ∀ a h', R a h' → Gives env (f a) h' Q) : Gives env (p.bind f) h Q := by
  obtain ⟨a, h', hplay, hR⟩ := hp
  obtain ⟨b, h'', hplay', hQ⟩ := hf a h' hR
  exact ⟨b, h'', by rw [play_bind, hplay]; exact hplay', hQ⟩

/-- Rule for `try/except` with a handler that returns. -/
theorem tryExcept {g : S.Exc → Prog S α} (hok : ∀ a h', p.play env h = (h', .ok a) → Q a h')
    (herr : ∀ e h', p.play env h = (h', .error e) → Gives env (g e) h' Q) :
    Gives env (p.tryExcept g) h Q := by
  unfold Gives
  rw [play_tryExcept]
  cases hplay : p.play env h with
  | mk h' r =>
    cases r with
    | ok a => exact ⟨a, h', rfl, hok a h' hplay⟩
    | error e => exact herr e h' hplay

/-- Consequence rule. -/
theorem mono (hp : Gives env p h R) (hQ : ∀ a h', R a h' → Q a h') : Gives env p h Q := by
  obtain ⟨a, h', hplay, hR⟩ := hp
  exact ⟨a, h', hplay, hQ a h' hR⟩

end Gives

end Prog

end RelayQ
