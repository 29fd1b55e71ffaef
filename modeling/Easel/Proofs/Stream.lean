import Easel.Token.Stream

/-!
# Easel.Proofs.Stream

Streams of tokens, and when the parsers that every other one is made of succeed. A parser that
succeeds is taken apart by `Parser.bind_ok_iff`, and each of its parts says in one equivalence what
it found and where it stopped.
-/

namespace Easel

namespace Stream

/-- The stream that has `ts` still before it and then goes on like `s`. -/
def prepend (ts : List Token) (s : Stream) : Stream := { s with rest := ts ++ s.rest }

theorem prepend_append (ts us : List Token) (s : Stream) :
    s.prepend (ts ++ us) = (s.prepend us).prepend ts := by
  simp [prepend]

@[simp] theorem current_prepend (t : Token) (ts : List Token) (s : Stream) :
    (s.prepend (t :: ts)).current = t := rfl

/-- At the end there is only the mark to look at. -/
theorem exists_cons {s : Stream} (h : s.current.kind ≠ .endOfInput) :
    ∃ ts, s.rest = s.current :: ts ∧ s.advance.rest = ts := by
  obtain ⟨rest, lexeme, line⟩ := s
  cases rest with
  | nil => exact absurd rfl h
  | cons t ts => exact ⟨ts, rfl, rfl⟩

theorem length_advance_lt {s : Stream} (h : s.current.kind ≠ .endOfInput) :
    s.advance.rest.length < s.rest.length := by
  obtain ⟨ts, hs, ha⟩ := exists_cons h
  rw [hs, ha]
  simp

theorem length_advance (s : Stream) : s.advance.rest.length = s.rest.length - 1 := by
  simp [advance]

theorem length_advance_le (s : Stream) : s.advance.rest.length ≤ s.rest.length := by
  simp [advance]

/-- No operator that holds its left operand at least as strongly as `power` comes next. -/
def Stops (power : Nat) (s : Stream) : Prop :=
  ∀ op, s.current.kind = .operator op → op.leftPower < power

end Stream

namespace Parser

variable {α β : Type}

theorem bind_ok_iff {p : Parser α} {f : α → Parser β} {s s' : Stream} {b : β} :
    (p >>= f) s = .ok b s' ↔ ∃ a s₁, p s = .ok a s₁ ∧ f a s₁ = .ok b s' := by
  show EStateM.bind p f s = _ ↔ _
  unfold EStateM.bind
  cases p s with
  | ok a s₁ =>
    constructor
    · intro h
      exact ⟨a, s₁, rfl, h⟩
    · rintro ⟨_, _, h, hf⟩
      cases h
      exact hf
  | error d s₁ => simp

theorem bind_of_ok {p : Parser α} {s s₁ : Stream} {a : α} (h : p s = .ok a s₁)
    (f : α → Parser β) : (p >>= f) s = f a s₁ := by
  show EStateM.bind p f s = _
  rw [EStateM.bind, h]

theorem bind_of_error {p : Parser α} {s s₁ : Stream} {d : Diagnostic} (h : p s = .error d s₁)
    (f : α → Parser β) : (p >>= f) s = .error d s₁ := by
  show EStateM.bind p f s = _
  rw [EStateM.bind, h]

theorem map_congr_at {p q : Parser α} {s s' : Stream} (h : p s = q s') (f : α → β) :
    (f <$> p) s = (f <$> q) s' := by
  show EStateM.map f p s = EStateM.map f q s'
  rw [EStateM.map, EStateM.map, h]

theorem peek_bind (f : Token → Parser α) (s : Stream) : (peek >>= f) s = f s.current s := rfl

theorem pure_ok_iff {a b : α} {s s' : Stream} :
    (pure a : Parser α) s = .ok b s' ↔ a = b ∧ s = s' := by
  show EStateM.Result.ok a s = _ ↔ _
  simp

theorem get_ok_iff {s s₁ s' : Stream} :
    (get : Parser Stream) s = .ok s₁ s' ↔ s = s₁ ∧ s = s' := by
  show EStateM.Result.ok s s = _ ↔ _
  simp

theorem peek_ok_iff {s s' : Stream} {t : Token} :
    peek s = .ok t s' ↔ s.current = t ∧ s = s' := by
  show EStateM.Result.ok s.current s = _ ↔ _
  simp

theorem next_ok_iff {s s' : Stream} {t : Token} :
    next s = .ok t s' ↔ s.current = t ∧ s.advance = s' := by
  show EStateM.Result.ok s.current s.advance = _ ↔ _
  simp

theorem atEnd_ok_iff {s s' : Stream} {b : Bool} :
    atEnd s = .ok b s' ↔ s.rest.isEmpty = b ∧ s = s' := by
  show EStateM.Result.ok s.rest.isEmpty s = _ ↔ _
  simp

theorem fail_ok_iff {line : Nat} {fault : Fault} {s s' : Stream} {a : α} :
    (fail line fault : Parser α) s = .ok a s' ↔ False := by
  show EStateM.Result.error _ s = _ ↔ _
  simp

theorem unexpected_ok_iff {expected : String} {s s' : Stream} {a : α} :
    (unexpected expected : Parser α) s = .ok a s' ↔ False := by
  show EStateM.Result.error _ s = _ ↔ _
  simp

theorem eat_ok_iff {kind : TokenKind} {s s' : Stream} {b : Bool} :
    eat kind s = .ok b s' ↔
      (s.current.kind = kind ∧ b = true ∧ s' = s.advance) ∨
        (s.current.kind ≠ kind ∧ b = false ∧ s' = s) := by
  rw [eat, bind_ok_iff]
  constructor
  · rintro ⟨t, s₁, hp, h⟩
    obtain ⟨rfl, rfl⟩ := peek_ok_iff.mp hp
    split at h
    · rename_i hk
      cases h
      exact .inl ⟨hk, rfl, rfl⟩
    · rename_i hk
      cases h
      exact .inr ⟨hk, rfl, rfl⟩
  · rintro (⟨hk, rfl, rfl⟩ | ⟨hk, rfl, rfl⟩)
    · exact ⟨_, _, rfl, by rw [if_pos hk]; rfl⟩
    · exact ⟨_, _, rfl, by rw [if_neg hk]; rfl⟩

theorem expect_ok_iff {kind : TokenKind} {expected : String} {s s' : Stream} {u : Unit} :
    expect kind expected s = .ok u s' ↔ s.current.kind = kind ∧ s' = s.advance := by
  simp only [expect, bind_ok_iff, eat_ok_iff]
  constructor
  · rintro ⟨b, s₁, ⟨h, rfl, rfl⟩ | ⟨h, rfl, rfl⟩, hs⟩
    · exact ⟨h, (pure_ok_iff.mp hs).2.symm⟩
    · exact (unexpected_ok_iff.mp hs).elim
  · rintro ⟨h, rfl⟩
    exact ⟨true, s.advance, .inl ⟨h, rfl, rfl⟩, rfl⟩

theorem require_ok_iff {line : Nat} {x : Except Fault α} {s s' : Stream} {a : α} :
    require line x s = .ok a s' ↔ x = .ok a ∧ s = s' := by
  cases x with
  | ok b => simp only [require, pure_ok_iff, Except.ok.injEq]
  | error f => simp only [require, fail_ok_iff, reduceCtorEq, false_and]

end Parser
end Easel
