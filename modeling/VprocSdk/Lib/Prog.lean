import Mathlib.Data.List.Basic
import Mathlib.Tactic.Common

/-!
# Programs that ask an environment

A program is a finite tree: it returns a value, or asks a question and continues with the answer. The
environment is not part of it, so one program can be run against an answering function, against a
device that keeps a state, or step by step beside other programs.

Two ways of reasoning are set up here. `run` plays a program against an arbitrary answering function
and records every exchange. `Obeys` states that a program keeps a contract: what it may ask in each
ghost state, what the answers it relies on are, and what holds when it returns. A contract composes
along `bind`, and `Obeys.run` turns it into a statement about the recorded exchanges.
-/

namespace Lib

universe u

/-- A program with questions `Q`, answers `A` and result `α`. -/
inductive Prog (Q A α : Type u) : Type u
  | pure (a : α) : Prog Q A α
  | ask (q : Q) (next : A → Prog Q A α) : Prog Q A α

namespace Prog

variable {Q A α β γ : Type u}

def bind : Prog Q A α → (α → Prog Q A β) → Prog Q A β
  | .pure a, f => f a
  | .ask q next, f => .ask q fun a => (next a).bind f

instance : Monad (Prog Q A) where
  pure := Prog.pure
  bind := Prog.bind

def query (q : Q) : Prog Q A A := .ask q .pure

@[simp] theorem pure_eq (a : α) : (Pure.pure a : Prog Q A α) = .pure a := rfl

@[simp] theorem pure_bind (a : α) (f : α → Prog Q A β) : (Prog.pure a >>= f) = f a := rfl

@[simp] theorem ask_bind (q : Q) (next : A → Prog Q A α) (f : α → Prog Q A β) :
    (Prog.ask q next >>= f) = .ask q fun a => next a >>= f := rfl

@[simp] theorem query_bind (q : Q) (f : A → Prog Q A β) :
    ((query q : Prog Q A A) >>= f) = .ask q f := rfl

theorem bind_pure (p : Prog Q A α) : (p >>= fun a => pure a) = p := by
  induction p with
  | pure a => rfl
  | ask q next ih => exact congrArg _ (funext ih)

theorem bind_assoc (p : Prog Q A α) (f : α → Prog Q A β) (g : β → Prog Q A γ) :
    (p >>= f) >>= g = p >>= fun a => f a >>= g := by
  induction p with
  | pure a => rfl
  | ask q next ih => exact congrArg _ (funext ih)

instance : LawfulMonad (Prog Q A) :=
  LawfulMonad.mk' _ bind_pure (fun _ _ => rfl) bind_assoc

/-! ### Answering by another program -/

section Handled

variable {Q' A' : Type u} (handler : Q → Prog Q' A' A)

/-- A program whose questions are answered by programs that ask another environment. -/
def handled : Prog Q A α → Prog Q' A' α
  | .pure a => .pure a
  | .ask q next => handler q >>= fun a => handled (next a)

theorem handled_query (q : Q) : (query q : Prog Q A A).handled handler = handler q :=
  bind_pure (handler q)

theorem handled_bind (p : Prog Q A α) (f : α → Prog Q A β) :
    (p >>= f).handled handler = p.handled handler >>= fun a => (f a).handled handler := by
  induction p with
  | pure a => rfl
  | ask q next ih =>
      change (handler q >>= fun a => (next a >>= f).handled handler) = _
      rw [funext ih]
      exact (bind_assoc _ _ _).symm

end Handled

/-! ### The same program through two translations -/

section Alike

variable {Q' A' : Type u} {left right : Q → Prog Q' A' A}

/-- The two programs ask and return the same once their questions are translated. -/
def Alike (left right : Q → Prog Q' A' A) (p q : Prog Q A α) : Prop :=
  p.handled left = q.handled right

theorem alike_pure (a : α) : Alike left right (.pure a : Prog Q A α) (.pure a) := rfl

theorem Alike.bind {p q : Prog Q A α} {f g : α → Prog Q A β} (h : Alike left right p q)
    (hf : ∀ a, Alike left right (f a) (g a)) : Alike left right (p >>= f) (q >>= g) := by
  have hp : p.handled left = q.handled right := h
  unfold Alike
  rw [handled_bind, handled_bind, hp]
  congr 1
  funext a
  exact hf a

theorem Alike.ite {c : Prop} [Decidable c] {p q p' q' : Prog Q A α} (h : Alike left right p q)
    (h' : Alike left right p' q') :
    Alike left right (if c then p else p') (if c then q else q') := by
  by_cases hc : c
  · rw [if_pos hc, if_pos hc]
    exact h
  · rw [if_neg hc, if_neg hc]
    exact h'

end Alike

/-! ### Running against an answering function -/

/-- The exchanges made so far, oldest first. -/
abbrev Exchanges (Q A : Type u) := List (Q × A)

/-- Run a program whose environment answers each question from the exchanges made so far. The result
is the complete record of exchanges and the value returned. -/
def run (answer : Exchanges Q A → Q → A) : Exchanges Q A → Prog Q A α → Exchanges Q A × α
  | done, .pure a => (done, a)
  | done, .ask q next => run answer (done ++ [(q, answer done q)]) (next (answer done q))

@[simp] theorem run_pure (answer : Exchanges Q A → Q → A) (done : Exchanges Q A) (a : α) :
    run answer done (.pure a) = (done, a) := rfl

@[simp] theorem run_ask (answer : Exchanges Q A → Q → A) (done : Exchanges Q A) (q : Q)
    (next : A → Prog Q A α) :
    run answer done (.ask q next)
      = run answer (done ++ [(q, answer done q)]) (next (answer done q)) := rfl

theorem run_bind (answer : Exchanges Q A → Q → A) (done : Exchanges Q A) (p : Prog Q A α)
    (f : α → Prog Q A β) :
    run answer done (p >>= f) = run answer (run answer done p).1 (f (run answer done p).2) := by
  induction p generalizing done with
  | pure a => rfl
  | ask q next ih => exact ih (answer done q) _

theorem run_extends (answer : Exchanges Q A → Q → A) (done : Exchanges Q A) (p : Prog Q A α) :
    ∃ more, (run answer done p).1 = done ++ more := by
  induction p generalizing done with
  | pure a => exact ⟨[], by simp⟩
  | ask q next ih =>
      obtain ⟨more, hmore⟩ := ih (answer done q) (done ++ [(q, answer done q)])
      exact ⟨(q, answer done q) :: more, by simpa using hmore⟩

/-- The first question of the program is `q`. -/
def Starts (q : Q) (p : Prog Q A α) : Prop := ∃ next, p = .ask q next

theorem starts_ask (q : Q) (next : A → Prog Q A α) : (Prog.ask q next).Starts q := ⟨next, rfl⟩

theorem Starts.bind {q : Q} {p : Prog Q A α} (h : p.Starts q) (f : α → Prog Q A β) :
    (p >>= f).Starts q := by
  obtain ⟨next, rfl⟩ := h
  exact ⟨_, rfl⟩

theorem Starts.run {q : Q} {p : Prog Q A α} (h : p.Starts q) (answer : Exchanges Q A → Q → A)
    (done : Exchanges Q A) : ∃ more, (p.run answer done).1 = done ++ (q, answer done q) :: more := by
  obtain ⟨next, rfl⟩ := h
  obtain ⟨more, hmore⟩ := run_extends answer (done ++ [(q, answer done q)]) (next (answer done q))
  exact ⟨more, by simpa using hmore⟩

/-! ### Running against a device -/

/-- Run a program whose questions a device answers from its state. -/
def servedBy {S : Type u} (device : S → Q → S × A) : S → Prog Q A α → S × α
  | s, .pure a => (s, a)
  | s, .ask q next => servedBy device (device s q).1 (next (device s q).2)

/-- The state of a device after the exchanges of a record. -/
def replay {S : Type u} (device : S → Q → S × A) (s : S) (done : Exchanges Q A) : S :=
  done.foldl (fun s x => (device s x.1).1) s

/-- To run a program against the answers a device gives after the exchanges made is to have it served by
the device. -/
theorem run_replay {S : Type u} (device : S → Q → S × A) (s : S) (done : Exchanges Q A) (p : Prog Q A α) :
    (replay device s (p.run (fun done q => (device (replay device s done) q).2) done).1,
      (p.run (fun done q => (device (replay device s done) q).2) done).2)
      = p.servedBy device (replay device s done) := by
  induction p generalizing done with
  | pure a => rfl
  | ask q next ih =>
      have hnext := ih (device (replay device s done) q).2
        (done ++ [(q, (device (replay device s done) q).2)])
      have hstep : replay device s (done ++ [(q, (device (replay device s done) q).2)])
          = (device (replay device s done) q).1 := by
        rw [replay, List.foldl_append]
        rfl
      rw [hstep] at hnext
      exact hnext

theorem servedBy_bind {S : Type u} (device : S → Q → S × A) (s : S) (p : Prog Q A α)
    (f : α → Prog Q A β) : (p >>= f).servedBy device s
      = (f (p.servedBy device s).2).servedBy device (p.servedBy device s).1 := by
  induction p generalizing s with
  | pure a => rfl
  | ask q next ih => exact ih _ _

theorem servedBy_query_bind {S : Type u} (device : S → Q → S × A) (s : S) (q : Q) (f : A → Prog Q A β) :
    (query q >>= f).servedBy device s = (f (device s q).2).servedBy device (device s q).1 := rfl

theorem servedBy_andThen {S ε : Type u} {device : S → Q → S × A} {s s' : S} {a : α}
    {p : ExceptT ε (Prog Q A) α} (h : p.run.servedBy device s = (s', .ok a))
    (f : α → ExceptT ε (Prog Q A) β) :
    (p >>= f).run.servedBy device s = (f a).run.servedBy device s' := by
  rw [ExceptT.run_bind, servedBy_bind, h]

/-! ### Contracts -/

/-- What a program may ask in a ghost state, which answers it relies on, and how an exchange moves the
ghost state. -/
structure Contract (Q A γ : Type u) where
  may : γ → Q → Prop
  relies : γ → Q → A → Prop
  after : γ → Q → A → γ

/-- The program keeps the contract from a ghost state on, and returns only when `post` holds. -/
def Obeys (c : Contract Q A γ) : Prog Q A α → γ → (α → γ → Prop) → Prop
  | .pure a, g, post => post a g
  | .ask q next, g, post => c.may g q ∧ ∀ a, c.relies g q a → Obeys c (next a) (c.after g q a) post

variable {c : Contract Q A γ}

@[simp] theorem obeys_pure {a : α} {g : γ} {post : α → γ → Prop} :
    Obeys c (.pure a) g post ↔ post a g := Iff.rfl

theorem Obeys.mono {p : Prog Q A α} {g : γ} {post post' : α → γ → Prop} (h : Obeys c p g post)
    (himp : ∀ a g', post a g' → post' a g') : Obeys c p g post' := by
  induction p generalizing g with
  | pure a => exact himp a g h
  | ask q next ih => exact ⟨h.1, fun a ha => ih a (h.2 a ha)⟩

/-- Sequencing: the second part takes over in any ghost state the first part may end in. -/
theorem obeys_bind {p : Prog Q A α} {f : α → Prog Q A β} {g : γ} {post : β → γ → Prop} :
    Obeys c (p >>= f) g post ↔ Obeys c p g fun a g' => Obeys c (f a) g' post := by
  induction p generalizing g with
  | pure a => exact Iff.rfl
  | ask q next ih =>
      constructor
      · exact fun h => ⟨h.1, fun a ha => (ih a).1 (h.2 a ha)⟩
      · exact fun h => ⟨h.1, fun a ha => (ih a).2 (h.2 a ha)⟩

theorem Obeys.bind {p : Prog Q A α} {f : α → Prog Q A β} {g : γ} {mid : α → γ → Prop}
    {post : β → γ → Prop} (hp : Obeys c p g mid) (hf : ∀ a g', mid a g' → Obeys c (f a) g' post) :
    Obeys c (p >>= f) g post :=
  obeys_bind.2 (hp.mono hf)

/-- The ghost state behind a record of exchanges. -/
def Contract.follow (c : Contract Q A γ) (g : γ) (record : Exchanges Q A) : γ :=
  record.foldl (fun g x => c.after g x.1 x.2) g

/-- Each question of a record is one that the exchanges before it allow. -/
def Contract.Kept (c : Contract Q A γ) (g : γ) (record : Exchanges Q A) : Prop :=
  ∀ before q a rest, record = before ++ (q, a) :: rest → c.may (c.follow g before) q

theorem Contract.Kept.cons {g : γ} {q : Q} {a : A} {record : Exchanges Q A} (hq : c.may g q)
    (h : c.Kept (c.after g q a) record) : c.Kept g ((q, a) :: record) := by
  intro before q' a' rest heq
  cases before with
  | nil =>
      cases heq
      exact hq
  | cons x before =>
      obtain ⟨rfl, hrest⟩ := List.cons.inj heq
      exact h before q' a' rest hrest

/-- A program that keeps a contract keeps it in every run whose answers can be relied on. -/
theorem Obeys.follow {p : Prog Q A α} {g : γ} {post : α → γ → Prop} (h : Obeys c p g post)
    (answer : Exchanges Q A → Q → A) (done : Exchanges Q A)
    (hrelies : ∀ more q, c.relies (c.follow g more) q (answer (done ++ more) q)) :
    ∃ more, (p.run answer done).1 = done ++ more ∧ c.Kept g more ∧
      post (p.run answer done).2 (c.follow g more) := by
  induction p generalizing g done with
  | pure a =>
      refine ⟨[], (List.append_nil done).symm, ?_, h⟩
      intro before q a rest heq
      simp at heq
  | ask q next ih =>
      have hfirst := hrelies [] q
      rw [List.append_nil] at hfirst
      obtain ⟨more, hrun, hkept, hpost⟩ := ih _ (h.2 _ hfirst) (done ++ [(q, answer done q)]) (by
        intro more q'
        rw [List.append_assoc]
        exact hrelies ((q, answer done q) :: more) q')
      refine ⟨(q, answer done q) :: more, ?_, hkept.cons h.1, hpost⟩
      rw [run_ask, hrun, List.append_assoc]
      rfl

/-! ### Programs that raise -/

section Raising

variable {ε : Type u}

/-- What holds of the value of a program that does not raise. -/
def onOk (post : α → γ → Prop) (result : Except ε α) (g : γ) : Prop := ∀ a, result = .ok a → post a g

@[simp] theorem onOk_ok {post : α → γ → Prop} {a : α} {g : γ} :
    onOk post (.ok a : Except ε α) g ↔ post a g :=
  ⟨fun h => h a rfl, fun h _ ha => Except.ok.inj ha ▸ h⟩

theorem onOk_error {post : α → γ → Prop} {e : ε} {g : γ} : onOk post (.error e : Except ε α) g :=
  fun _ ha => nomatch ha

theorem Obeys.andThen {p : ExceptT ε (Prog Q A) α} {f : α → ExceptT ε (Prog Q A) β} {g : γ}
    {mid : α → γ → Prop} {post : β → γ → Prop} (hp : Obeys c p.run g (onOk mid))
    (hf : ∀ a g', mid a g' → Obeys c (f a).run g' (onOk post)) :
    Obeys c (p >>= f).run g (onOk post) := by
  rw [ExceptT.run_bind]
  refine hp.bind fun result g' hmid => ?_
  cases result with
  | ok a => exact hf a g' (onOk_ok.1 hmid)
  | error e => exact onOk_error

theorem obeys_raise {e : ε} {g : γ} {post : α → γ → Prop} :
    Obeys c (throw e : ExceptT ε (Prog Q A) α).run g (onOk post) := onOk_error

theorem obeys_return {a : α} {g : γ} {post : α → γ → Prop} (h : post a g) :
    Obeys c (Pure.pure a : ExceptT ε (Prog Q A) α).run g (onOk post) := onOk_ok.2 h

end Raising

/-- Every question the program can ask satisfies `P`. -/
def Asks (P : Q → Prop) : Prog Q A α → Prop
  | .pure _ => True
  | .ask q next => P q ∧ ∀ a, Asks P (next a)

theorem Asks.bind {P : Q → Prop} {p : Prog Q A α} {f : α → Prog Q A β} (hp : p.Asks P)
    (hf : ∀ a, (f a).Asks P) : (p >>= f).Asks P := by
  induction p with
  | pure a => exact hf a
  | ask q next ih => exact ⟨hp.1, fun a => ih a (hp.2 a)⟩

theorem Asks.run {P : Q → Prop} {p : Prog Q A α} (hp : p.Asks P) (answer : Exchanges Q A → Q → A)
    (done : Exchanges Q A) :
    ∃ more, (p.run answer done).1 = done ++ more ∧ ∀ x ∈ more, P x.1 := by
  induction p generalizing done with
  | pure a => exact ⟨[], by simp⟩
  | ask q next ih =>
      obtain ⟨more, hmore, hasked⟩ := ih _ (hp.2 _) (done ++ [(q, answer done q)])
      refine ⟨(q, answer done q) :: more, by simpa using hmore, ?_⟩
      intro x hx
      rcases List.mem_cons.1 hx with rfl | hrest
      · exact hp.1
      · exact hasked x hrest

/-- Every value the program can return satisfies `P`. -/
def Returns (P : α → Prop) : Prog Q A α → Prop
  | .pure a => P a
  | .ask _ next => ∀ a, Returns P (next a)

theorem Returns.bind {P : β → Prop} {p : Prog Q A α} {f : α → Prog Q A β}
    (hf : ∀ a, (f a).Returns P) : (p >>= f).Returns P := by
  induction p with
  | pure a => exact hf a
  | ask q next ih => exact fun a => ih a

theorem returns_bind_iff {P : α → Prop} {P' : β → Prop} {p : Prog Q A α} {f : α → Prog Q A β}
    (hf : ∀ a, (f a).Returns P' ↔ P a) : (p >>= f).Returns P' ↔ p.Returns P := by
  induction p with
  | pure a => exact hf a
  | ask q next ih => exact forall_congr' ih

theorem Returns.bind_eq {P : α → Prop} {p : Prog Q A α} {f : α → Prog Q A α} (h : p.Returns P)
    (hf : ∀ a, P a → f a = .pure a) : p >>= f = p := by
  induction p with
  | pure a => exact hf a h
  | ask q next ih => exact congrArg _ (funext fun a => ih a (h a))

/-- A program whose questions are all allowed under an invariant they preserve keeps the contract. -/
theorem Asks.obeys {P : Q → Prop} {p : Prog Q A α} (hp : p.Asks P) (inv : γ → Prop)
    (hmay : ∀ g q, inv g → P q → c.may g q)
    (hafter : ∀ g q a, inv g → P q → c.relies g q a → inv (c.after g q a)) {g : γ} (hg : inv g) :
    Obeys c p g fun _ g' => inv g' := by
  induction p generalizing g with
  | pure a => exact hg
  | ask q next ih =>
      exact ⟨hmay g q hg hp.1, fun a ha => ih a (hp.2 a) (hafter g q a hg hp.1 ha)⟩

/-! ### Contracts about the record of exchanges -/

/-- The contract whose ghost state is the record of exchanges: a program keeps it when every question
it asks is justified by the exchanges before it. -/
def historyContract (may : Exchanges Q A → Q → Prop) (relies : Exchanges Q A → Q → A → Prop) :
    Contract Q A (Exchanges Q A) where
  may := may
  relies := relies
  after := fun done q a => done ++ [(q, a)]

/-- Every exchange in the record satisfies `ok` together with the exchanges before it. -/
def Justified (ok : Exchanges Q A → Q → A → Prop) (done : Exchanges Q A) : Prop :=
  ∀ before q a rest, done = before ++ (q, a) :: rest → ok before q a

theorem justified_nil (ok : Exchanges Q A → Q → A → Prop) : Justified ok [] := by
  intro before q a rest h
  simp at h

theorem Justified.mono {ok ok' : Exchanges Q A → Q → A → Prop} {done : Exchanges Q A}
    (h : Justified ok done) (himp : ∀ before q a, ok before q a → ok' before q a) :
    Justified ok' done :=
  fun before q a rest heq => himp before q a (h before q a rest heq)

theorem Justified.snoc {ok : Exchanges Q A → Q → A → Prop} {done : Exchanges Q A} {q : Q} {a : A}
    (h : Justified ok done) (hq : ok done q a) : Justified ok (done ++ [(q, a)]) := by
  intro before q' a' rest heq
  rcases List.eq_nil_or_concat rest with rfl | ⟨rest', last, rfl⟩
  · obtain ⟨rfl, hlast⟩ := List.append_inj' heq rfl
    simp only [List.cons.injEq, Prod.mk.injEq, and_true] at hlast
    obtain ⟨rfl, rfl⟩ := hlast
    exact hq
  · have heq' : done ++ [(q, a)] = (before ++ (q', a') :: rest') ++ [last] := by simpa using heq
    obtain ⟨hdone, -⟩ := List.append_inj' heq' rfl
    exact h before q' a' rest' hdone

/-- A program that keeps a history contract runs with every exchange justified, and returns in a
record its postcondition holds of. -/
theorem Obeys.run {may : Exchanges Q A → Q → Prop} {relies : Exchanges Q A → Q → A → Prop}
    {p : Prog Q A α} {done : Exchanges Q A} {post : α → Exchanges Q A → Prop}
    (h : Obeys (historyContract may relies) p done post)
    (hdone : Justified (fun before q a => may before q ∧ relies before q a) done)
    {answer : Exchanges Q A → Q → A} (hrelies : ∀ done q, relies done q (answer done q)) :
    Justified (fun before q a => may before q ∧ relies before q a) (p.run answer done).1 ∧
      post (p.run answer done).2 (p.run answer done).1 := by
  induction p generalizing done with
  | pure a => exact ⟨hdone, h⟩
  | ask q next ih => exact ih _ (h.2 _ (hrelies done q)) (hdone.snoc ⟨h.1, hrelies done q⟩)

end Prog

end Lib
