import Mathlib.Data.List.Basic
import Mathlib.Data.List.Infix
import Mathlib.Tactic.Common

/-!
# Programs in conversation with their world

A program makes calls that the world answers, or never answers, and says things on the way. It may
fail. Nothing is assumed about the answers.

* `Dialog`: the programs, a monad; `Runs p t o`: the world can make `p` go through the steps `t` to
  the outcome `o`; `runs_bind`;
* `Safe ok h p`: after the history `h`, every step `p` takes is allowed by what came before it;
  `safe_bind`, **`Safe.step`**;
* `Ensures p Q`: whatever run returns, returns what `Q` allows; `ensures_bind`;
* `Says P p`, `Fails P p`: what `p` says, and what it fails with;
* `Meets R S h p`: after the history `h`, `p` returns with `R`, or fails or hangs with `S`;
  `meets_bind`, **`Meets.run`**;
* `Goes p t q`: after the steps `t` of `p`, `q` is left; `Goes.trans`, **`Goes.bind`**.
-/

/-- A program that calls its world with a `c : C`, answered in `A c`, says things in `E`, fails with
`ε` and returns in `α`. -/
inductive Dialog (C : Type) (A : C → Type) (E ε α : Type) : Type
  | ret (a : α)
  | fail (e : ε)
  /-- Nothing more ever happens. -/
  | hang
  | say (e : E) (next : Dialog C A E ε α)
  | call (c : C) (next : A c → Dialog C A E ε α)

namespace Dialog

variable {C : Type} {A : C → Type} {E ε α β γ σ : Type}

/-- One thing that happens. -/
inductive Step (C : Type) (A : C → Type) (E : Type) : Type
  | said (e : E)
  | called (c : C) (a : A c)
  | unanswered (c : C)

inductive Outcome (ε α : Type) : Type
  | returned (a : α)
  | failed (e : ε)
  | hung
  deriving DecidableEq, Repr

/-- The call a step makes. -/
def Step.call? : Step C A E → Option C
  | .said _ => none
  | .called c _ | .unanswered c => some c

def Step.said? : Step C A E → Option E
  | .said e => some e
  | _ => none

/-- What is said in a run. -/
def said (t : List (Step C A E)) : List E := t.filterMap Step.said?

@[simp] theorem said_nil : said ([] : List (Step C A E)) = [] := rfl

@[simp] theorem said_append (t t' : List (Step C A E)) : said (t ++ t') = said t ++ said t' :=
  List.filterMap_append

@[simp] theorem said_cons_said (e : E) (t : List (Step C A E)) :
    said (.said e :: t) = e :: said t := rfl

@[simp] theorem said_cons_called (c : C) (a : A c) (t : List (Step C A E)) :
    said (.called c a :: t) = said t := rfl

@[simp] theorem said_unanswered (c : C) : said ([.unanswered c] : List (Step C A E)) = [] := rfl

/-! ## The monad -/

def bind : Dialog C A E ε α → (α → Dialog C A E ε β) → Dialog C A E ε β
  | .ret a, k => k a
  | .fail e, _ => .fail e
  | .hang, _ => .hang
  | .say e p, k => .say e (p.bind k)
  | .call c p, k => .call c fun a => (p a).bind k

instance : Monad (Dialog C A E ε) where
  pure := .ret
  bind := bind

theorem bind_assoc (p : Dialog C A E ε α) (k : α → Dialog C A E ε β)
    (l : β → Dialog C A E ε γ) : p >>= k >>= l = p >>= fun a => k a >>= l := by
  change (p.bind k).bind l = p.bind fun a => (k a).bind l
  induction p with
  | ret a => rfl
  | fail e => rfl
  | hang => rfl
  | say e p ih => exact congrArg (Dialog.say e) ih
  | call c p ih => exact congrArg (Dialog.call c) (funext ih)

/-- Call the world. -/
def ask (c : C) : Dialog C A E ε (A c) := .call c .ret

/-- Say something. -/
def tell (e : E) : Dialog C A E ε Unit := .say e (.ret ())

/-- Go on with what was answered, or fail with it. -/
def ofExcept : Except ε α → Dialog C A E ε α
  | .ok a => .ret a
  | .error e => .fail e

/-! ## Runs -/

/-- The world can make the program go through these steps, to this outcome. -/
def Runs : Dialog C A E ε α → List (Step C A E) → Outcome ε α → Prop
  | .ret a, t, o => t = [] ∧ o = .returned a
  | .fail e, t, o => t = [] ∧ o = .failed e
  | .hang, t, o => t = [] ∧ o = .hung
  | .say e p, t, o => ∃ t', t = .said e :: t' ∧ p.Runs t' o
  | .call c p, t, o =>
    (t = [.unanswered c] ∧ o = .hung) ∨ ∃ a t', t = .called c a :: t' ∧ (p a).Runs t' o

variable {p : Dialog C A E ε α} {k : α → Dialog C A E ε β} {t : List (Step C A E)}

/-- The outcome of a program that has not returned, as the outcome of what follows it. -/
def Outcome.cast : Outcome ε α → Option (Outcome ε β)
  | .returned _ => none
  | .failed e => some (.failed e)
  | .hung => some .hung

/-- A run of `p` and then `k` is a run of `p` that does not return, or one that returns and a run of
what it returns. -/
theorem runs_bind {o : Outcome ε β} : (p >>= k).Runs t o ↔
    (∃ o' : Outcome ε α, p.Runs t o' ∧ o'.cast = some o) ∨
      ∃ t₁ t₂ a, t = t₁ ++ t₂ ∧ p.Runs t₁ (.returned a) ∧ (k a).Runs t₂ o := by
  change (p.bind k).Runs t o ↔ _
  induction p generalizing t with
  | ret a => simp [bind, Runs, Outcome.cast]
  | fail e => simp [bind, Runs, Outcome.cast, eq_comm]
  | hang => simp [bind, Runs, Outcome.cast, eq_comm]
  | say e p ih =>
    simp only [bind, Runs, ih]
    constructor
    · rintro ⟨t', rfl, ⟨o', hp, ho⟩ | ⟨t₁, t₂, a, rfl, hp, hk⟩⟩
      · exact .inl ⟨o', ⟨t', rfl, hp⟩, ho⟩
      · exact .inr ⟨.said e :: t₁, t₂, a, rfl, ⟨t₁, rfl, hp⟩, hk⟩
    · rintro (⟨o', ⟨t', rfl, hp⟩, ho⟩ | ⟨t₁, t₂, a, rfl, ⟨t', rfl, hp⟩, hk⟩)
      · exact ⟨t', rfl, .inl ⟨o', hp, ho⟩⟩
      · exact ⟨t' ++ t₂, rfl, .inr ⟨t', t₂, a, rfl, hp, hk⟩⟩
  | call c p ih =>
    simp only [bind, Runs, ih]
    constructor
    · rintro (⟨rfl, rfl⟩ | ⟨b, t', rfl, ⟨o', hp, ho⟩ | ⟨t₁, t₂, a, rfl, hp, hk⟩⟩)
      · exact .inl ⟨.hung, .inl ⟨rfl, rfl⟩, rfl⟩
      · exact .inl ⟨o', .inr ⟨b, t', rfl, hp⟩, ho⟩
      · exact .inr ⟨.called c b :: t₁, t₂, a, rfl, .inr ⟨b, t₁, rfl, hp⟩, hk⟩
    · rintro (⟨o', ⟨rfl, rfl⟩ | ⟨b, t', rfl, hp⟩, ho⟩ | ⟨t₁, t₂, a, rfl, h, hk⟩)
      · exact .inl ⟨rfl, (Option.some.inj ho).symm⟩
      · exact .inr ⟨b, t', rfl, .inl ⟨o', hp, ho⟩⟩
      · obtain ⟨_, h⟩ | ⟨b, t', rfl, hp⟩ := h
        · cases h
        · exact .inr ⟨b, t' ++ t₂, rfl, .inr ⟨t', t₂, a, rfl, hp, hk⟩⟩

@[simp] theorem runs_pure {a : α} {o : Outcome ε α} :
    (pure a : Dialog C A E ε α).Runs t o ↔ t = [] ∧ o = .returned a := Iff.rfl

theorem runs_ask {c : C} {o : Outcome ε (A c)} : (ask c : Dialog C A E ε (A c)).Runs t o ↔
    (t = [.unanswered c] ∧ o = .hung) ∨ ∃ a, t = [.called c a] ∧ o = .returned a := by
  simp only [ask, Runs]
  constructor
  · rintro (h | ⟨a, _, rfl, rfl, ho⟩)
    · exact .inl h
    · exact .inr ⟨a, rfl, ho⟩
  · rintro (h | ⟨a, rfl, ho⟩)
    · exact .inl h
    · exact .inr ⟨a, [], rfl, rfl, ho⟩

@[simp] theorem runs_tell {e : E} {o : Outcome ε Unit} :
    (tell e : Dialog C A E ε Unit).Runs t o ↔ t = [.said e] ∧ o = .returned () := by
  simp only [tell, Runs]
  constructor
  · rintro ⟨_, rfl, rfl, ho⟩
    exact ⟨rfl, ho⟩
  · rintro ⟨rfl, ho⟩
    exact ⟨[], rfl, rfl, ho⟩

/-- Run a program and take its failure as an answer. -/
def attempt {ε' : Type} : Dialog C A E ε α → Dialog C A E ε' (Except ε α)
  | .ret a => .ret (.ok a)
  | .fail e => .ret (.error e)
  | .hang => .hang
  | .say e p => .say e p.attempt
  | .call c p => .call c fun a => (p a).attempt

def Outcome.attempted {ε' : Type} : Outcome ε α → Outcome ε' (Except ε α)
  | .returned a => .returned (.ok a)
  | .failed e => .returned (.error e)
  | .hung => .hung

theorem runs_attempt {ε' : Type} {o : Outcome ε' (Except ε α)} :
    (attempt p).Runs t o ↔ ∃ o' : Outcome ε α, p.Runs t o' ∧ o = o'.attempted := by
  induction p generalizing t with
  | ret a => simp [attempt, Runs, Outcome.attempted]
  | fail e => simp [attempt, Runs, Outcome.attempted]
  | hang => simp [attempt, Runs, Outcome.attempted]
  | say e p ih =>
    simp only [attempt, Runs, ih]
    constructor
    · rintro ⟨t', rfl, o', hp, rfl⟩
      exact ⟨o', ⟨t', rfl, hp⟩, rfl⟩
    · rintro ⟨o', ⟨t', rfl, hp⟩, rfl⟩
      exact ⟨t', rfl, o', hp, rfl⟩
  | call c p ih =>
    simp only [attempt, Runs, ih]
    constructor
    · rintro (⟨rfl, rfl⟩ | ⟨a, t', rfl, o', hp, rfl⟩)
      · exact ⟨.hung, .inl ⟨rfl, rfl⟩, rfl⟩
      · exact ⟨o', .inr ⟨a, t', rfl, hp⟩, rfl⟩
    · rintro ⟨o', ⟨rfl, rfl⟩ | ⟨a, t', rfl, hp⟩, rfl⟩
      · exact .inl ⟨rfl, rfl⟩
      · exact .inr ⟨a, t', rfl, o', hp, rfl⟩

/-! ## What a program says and fails with -/

/-- All it says satisfies `P`. -/
def Says (P : E → Prop) (p : Dialog C A E ε α) : Prop :=
  ∀ t o, p.Runs t o → ∀ e ∈ said t, P e

/-- All it fails with satisfies `P`. -/
def Fails (P : ε → Prop) (p : Dialog C A E ε α) : Prop := ∀ t e, p.Runs t (.failed e) → P e

section Rules

variable {P : E → Prop} {F : ε → Prop}

theorem Says.mono {P' : E → Prop} (h : p.Says P) (hP : ∀ e, P e → P' e) : p.Says P' :=
  fun t o ht e he => hP e (h t o ht e he)

theorem says_pure (a : α) : (pure a : Dialog C A E ε α).Says P := by
  rintro t o ⟨rfl, _⟩ e he
  cases he

theorem says_fail (e : ε) : (fail e : Dialog C A E ε α).Says P := by
  rintro t o ⟨rfl, _⟩ e he
  cases he

theorem says_hang : (hang : Dialog C A E ε α).Says P := by
  rintro t o ⟨rfl, _⟩ e he
  cases he

theorem says_ask (c : C) : (ask c : Dialog C A E ε (A c)).Says P := by
  intro t o ht e he
  obtain ⟨rfl, _⟩ | ⟨a, rfl, _⟩ := runs_ask.mp ht <;> cases he

theorem says_tell {e : E} (h : P e) : (tell e : Dialog C A E ε Unit).Says P := by
  intro t o ht e' he
  obtain ⟨rfl, _⟩ := runs_tell.mp ht
  obtain rfl := List.mem_singleton.mp he
  exact h

theorem says_ofExcept (x : Except ε α) : (ofExcept x : Dialog C A E ε α).Says P := by
  cases x with
  | ok a => exact says_pure a
  | error e => exact says_fail e

theorem says_bind (hp : p.Says P) (hk : ∀ a, (k a).Says P) : (p >>= k).Says P := by
  intro t o ht e he
  obtain ⟨o', hp', _⟩ | ⟨t₁, t₂, a, rfl, hp', hk'⟩ := runs_bind.mp ht
  · exact hp t o' hp' e he
  · rw [said_append, List.mem_append] at he
    exact he.elim (hp t₁ _ hp' e) (hk a t₂ o hk' e)

theorem says_foldlM {f : σ → γ → Dialog C A E ε σ} (h : ∀ s b, (f s b).Says P) :
    ∀ (bs : List γ) (s : σ), (bs.foldlM f s).Says P
  | [], s => says_pure s
  | b :: bs, s => by
    rw [List.foldlM_cons]
    exact says_bind (h s b) fun s => says_foldlM h bs s

theorem Fails.mono {F' : ε → Prop} (h : p.Fails F) (hF : ∀ e, F e → F' e) : p.Fails F' :=
  fun t e ht => hF e (h t e ht)

theorem fails_pure (a : α) : (pure a : Dialog C A E ε α).Fails F := by
  rintro t e ⟨_, h⟩
  cases h

theorem fails_fail {e : ε} (h : F e) : (fail e : Dialog C A E ε α).Fails F := by
  rintro t e' ⟨_, he⟩
  cases he
  exact h

theorem fails_hang : (hang : Dialog C A E ε α).Fails F := by
  rintro t e ⟨_, h⟩
  cases h

theorem fails_ask (c : C) : (ask c : Dialog C A E ε (A c)).Fails F := by
  intro t e ht
  obtain ⟨_, h⟩ | ⟨a, _, h⟩ := runs_ask.mp ht <;> cases h

theorem fails_tell (e : E) : (tell e : Dialog C A E ε Unit).Fails F := by
  intro t e' ht
  cases (runs_tell.mp ht).2

theorem fails_bind (hp : p.Fails F) (hk : ∀ a, (k a).Fails F) : (p >>= k).Fails F := by
  intro t e ht
  obtain ⟨o', hp', ho⟩ | ⟨t₁, t₂, a, _, _, hk'⟩ := runs_bind.mp ht
  · cases o' with
    | returned a => cases ho
    | hung => cases ho
    | failed e' =>
      cases ho
      exact hp t e hp'
  · exact hk a t₂ e hk'

end Rules

/-! ## Steps that are allowed by what came before them -/

/-- Every step of the program, after the history `h`, is allowed by what came before it. -/
def Safe (ok : List (Step C A E) → Step C A E → Prop) :
    List (Step C A E) → Dialog C A E ε α → Prop
  | _, .ret _ | _, .fail _ | _, .hang => True
  | h, .say e p => ok h (.said e) ∧ Safe ok (h ++ [.said e]) p
  | h, .call c p =>
    ok h (.unanswered c) ∧ ∀ a, ok h (.called c a) ∧ Safe ok (h ++ [.called c a]) (p a)

section SafeRules

variable {ok : List (Step C A E) → Step C A E → Prop} {h : List (Step C A E)}

theorem safe_bind (hp : Safe ok h p)
    (hk : ∀ t a, p.Runs t (.returned a) → Safe ok (h ++ t) (k a)) : Safe ok h (p >>= k) := by
  change Safe ok h (p.bind k)
  induction p generalizing h with
  | ret a => simpa [bind] using hk [] a ⟨rfl, rfl⟩
  | fail e => trivial
  | hang => trivial
  | say e p ih =>
    refine ⟨hp.1, ih hp.2 fun t a ht => ?_⟩
    simpa using hk (.said e :: t) a ⟨t, rfl, ht⟩
  | call c p ih =>
    refine ⟨hp.1, fun b => ⟨(hp.2 b).1, ih b (hp.2 b).2 fun t a ht => ?_⟩⟩
    simpa using hk (.called c b :: t) a (.inr ⟨b, t, rfl, ht⟩)

theorem safe_attempt {ε' : Type} (hp : Safe ok h p) :
    Safe ok h (attempt p : Dialog C A E ε' (Except ε α)) := by
  induction p generalizing h with
  | ret a => trivial
  | fail e => trivial
  | hang => trivial
  | say e p ih => exact ⟨hp.1, ih hp.2⟩
  | call c p ih => exact ⟨hp.1, fun a => ⟨(hp.2 a).1, ih a (hp.2 a).2⟩⟩

/-- **Run rule**: every step of a run is allowed by the history and the steps before it. -/
theorem Safe.step (hp : Safe ok h p) {o : Outcome ε α} (ht : p.Runs t o)
    {before after : List (Step C A E)} {s : Step C A E} (hs : t = before ++ s :: after) :
    ok (h ++ before) s := by
  induction p generalizing h t before with
  | ret a => simp [ht.1] at hs
  | fail e => simp [ht.1] at hs
  | hang => simp [ht.1] at hs
  | say e p ih =>
    obtain ⟨t', rfl, ht'⟩ := ht
    cases before with
    | nil =>
      obtain ⟨rfl, _⟩ := List.cons.inj hs
      simpa using hp.1
    | cons b before =>
      obtain ⟨rfl, hs'⟩ := List.cons.inj hs
      simpa using ih hp.2 ht' hs'
  | call c p ih =>
    obtain ⟨rfl, _⟩ | ⟨a, t', rfl, ht'⟩ := ht
    · cases before with
      | nil =>
        obtain ⟨rfl, _⟩ := List.cons.inj hs
        simpa using hp.1
      | cons b before => simp at hs
    · cases before with
      | nil =>
        obtain ⟨rfl, _⟩ := List.cons.inj hs
        simpa using (hp.2 a).1
      | cons b before =>
        obtain ⟨rfl, hs'⟩ := List.cons.inj hs
        simpa using ih a (hp.2 a).2 ht' hs'

end SafeRules

/-! ## What holds at the end -/

/-- Whatever the world answers after the history `h`, the program returns with `R`, or it fails or
hangs with `S`. -/
def Meets (R : List (Step C A E) → α → Prop) (S : List (Step C A E) → Option ε → Prop) :
    List (Step C A E) → Dialog C A E ε α → Prop
  | h, .ret a => R h a
  | h, .fail e => S h (some e)
  | h, .hang => S h none
  | h, .say e p => Meets R S (h ++ [.said e]) p
  | h, .call c p =>
    S (h ++ [.unanswered c]) none ∧ ∀ a, Meets R S (h ++ [.called c a]) (p a)

section MeetsRules

variable {R : List (Step C A E) → α → Prop} {S : List (Step C A E) → Option ε → Prop}
  {h : List (Step C A E)}

/-- What an outcome satisfies. -/
def Outcome.Holds (R : List (Step C A E) → α → Prop) (S : List (Step C A E) → Option ε → Prop)
    (h : List (Step C A E)) : Outcome ε α → Prop
  | .returned a => R h a
  | .failed e => S h (some e)
  | .hung => S h none

@[simp] theorem meets_pure (a : α) : Meets R S h (pure a) ↔ R h a := Iff.rfl

@[simp] theorem meets_fail (e : ε) : Meets R S h (fail e) ↔ S h (some e) := Iff.rfl

@[simp] theorem meets_hang : Meets R S h hang ↔ S h none := Iff.rfl

theorem meets_asked {c : C} {k : A c → Dialog C A E ε α} :
    Meets R S h (ask c >>= k) ↔
      S (h ++ [.unanswered c]) none ∧ ∀ a, Meets R S (h ++ [.called c a]) (k a) := Iff.rfl

@[simp] theorem meets_tell {e : E} {R : List (Step C A E) → Unit → Prop} :
    Meets R S h (tell e) ↔ R (h ++ [.said e]) () := Iff.rfl

theorem meets_bind {R : List (Step C A E) → β → Prop} :
    Meets R S h (p >>= k) ↔ Meets (fun h a => Meets R S h (k a)) S h p := by
  change Meets R S h (p.bind k) ↔ _
  induction p generalizing h with
  | ret a => rfl
  | fail e => rfl
  | hang => rfl
  | say e p ih => exact ih
  | call c p ih => exact and_congr Iff.rfl (forall_congr' fun a => ih a)

theorem Meets.mono {R' : List (Step C A E) → α → Prop} (hp : Meets R S h p)
    (hR : ∀ h a, R h a → R' h a) : Meets R' S h p := by
  induction p generalizing h with
  | ret a => exact hR h a hp
  | fail e => exact hp
  | hang => exact hp
  | say e p ih => exact ih hp
  | call c p ih => exact ⟨hp.1, fun a => ih a (hp.2 a)⟩

theorem Meets.mono_ends {S' : List (Step C A E) → Option ε → Prop} (hp : Meets R S h p)
    (hS : ∀ h e, S h e → S' h e) : Meets R S' h p := by
  induction p generalizing h with
  | ret a => exact hp
  | fail e => exact hS h (some e) hp
  | hang => exact hS h none hp
  | say e p ih => exact ih hp
  | call c p ih => exact ⟨hS _ none hp.1, fun a => ih a (hp.2 a)⟩

/-- **Run rule**: a run ends with what the program meets. -/
theorem Meets.run (hp : Meets R S h p) {o : Outcome ε α} (ht : p.Runs t o) :
    o.Holds R S (h ++ t) := by
  induction p generalizing h t with
  | ret a =>
    obtain ⟨rfl, rfl⟩ := ht
    rwa [List.append_nil]
  | fail e =>
    obtain ⟨rfl, rfl⟩ := ht
    rwa [List.append_nil]
  | hang =>
    obtain ⟨rfl, rfl⟩ := ht
    rwa [List.append_nil]
  | say e p ih =>
    obtain ⟨t', rfl, ht'⟩ := ht
    simpa using ih hp ht'
  | call c p ih =>
    obtain ⟨rfl, rfl⟩ | ⟨a, t', rfl, ht'⟩ := ht
    · exact hp.1
    · simpa using ih a (hp.2 a) ht'

end MeetsRules

/-! ## On the way -/

/-- The world can make `p` go through these steps, and `q` is what is left of it. -/
inductive Goes : Dialog C A E ε α → List (Step C A E) → Dialog C A E ε α → Prop
  | here (p : Dialog C A E ε α) : Goes p [] p
  | say {e : E} {p q : Dialog C A E ε α} {t : List (Step C A E)} :
    Goes p t q → Goes (.say e p) (.said e :: t) q
  | call {c : C} {k : A c → Dialog C A E ε α} {a : A c} {q : Dialog C A E ε α}
    {t : List (Step C A E)} : Goes (k a) t q → Goes (.call c k) (.called c a :: t) q

section GoesRules

variable {q r : Dialog C A E ε α} {t' : List (Step C A E)}

theorem Goes.trans (h : Goes p t q) (h' : Goes q t' r) : Goes p (t ++ t') r := by
  induction h with
  | here p => exact h'
  | say _ ih => exact .say (ih h')
  | call _ ih => exact .call (ih h')

/-- What is left of a program, and what follows it. -/
theorem Goes.bind (h : Goes p t q) (k : α → Dialog C A E ε β) : Goes (p >>= k) t (q >>= k) := by
  induction h with
  | here p => exact .here _
  | say _ ih => exact .say ih
  | call _ ih => exact .call ih

end GoesRules

end Dialog
