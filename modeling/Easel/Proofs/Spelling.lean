import Mathlib.Data.Nat.Digits.Defs
import Easel.Token.Scan

/-!
# Easel.Proofs.Spelling

How tokens are spelled. `Spells cs k` says that the characters `cs` make a token of kind `k`, the
number, name or text in it included; it says nothing of where such a token ends in a text.

* `Token.munch_cases`: what `munch` can find, one case for every rule of spelling.
* `Token.spells_of_munch`: what `munch` cuts off spells the kind that it gives.
* `Scanned`: a list of tokens that are spelled as they should be, with one end mark behind them.
  Every scan gives one (`scanned_of_scan`).
* `Token.Spelled.query_iff`: in such a list a query can be told by the spelling or by the kind.
-/

namespace Easel

/-- The digits stand with the highest place first. -/
theorem decimalValue_eq_ofDigits (ds : List Char) :
    decimalValue ds = Nat.ofDigits 10 (ds.reverse.map fun c => c.toNat - '0'.toNat) := by
  rw [Nat.ofDigits_eq_foldr, List.foldr_map, List.foldr_reverse]
  simp only [decimalValue, Nat.cast_id, Nat.add_comm]

/-- A number is the value of its decimal digits. -/
theorem decimalValue_toDigits (n : Nat) : decimalValue (Nat.toDigits 10 n) = n :=
  Nat.ofDigitChars_ten_toDigits

/-- `Spells cs k`: the characters `cs` are a spelling of the kind `k`. -/
inductive Spells : List Char → TokenKind → Prop where
  | number {ds : List Char} {n : Number} :
      ds ≠ [] → (∀ c ∈ ds, c.isDigit = true) → n.toInt = decimalValue ds → Spells ds (.number n)
  | word {c : Char} {cs : List Char} :
      c.isAlpha = true → (∀ d ∈ cs, isWordChar d = true) →
      Spells (c :: cs) (.ofWord (String.ofList (c :: cs)))
  | text {cs : List Char} :
      (∀ c ∈ cs, isQuotable c = true) →
      Spells ('"' :: (cs ++ ['"'])) (.text (String.ofList cs))
  | symbol {cs : List Char} {k : TokenKind} : (cs, k) ∈ TokenKind.symbols → Spells cs k

/-- The piece of text is a spelling of the kind. -/
def Token.Spelled (t : Token) : Prop := Spells t.lexeme.toList t.kind

/-- Spelled tokens and one end mark behind them. -/
def Scanned (ts : List Token) : Prop :=
  ∃ (body : List Token) (line : Nat),
    ts = body ++ [⟨.endOfInput, "", line⟩] ∧ ∀ t ∈ body, t.Spelled

/-! ## Scanning -/

theorem take_length_takeWhile (p : Char → Bool) (cs : List Char) :
    cs.take (cs.takeWhile p).length = cs.takeWhile p :=
  (List.prefix_iff_eq_take.mp (List.takeWhile_prefix p)).symm

theorem of_mem_takeWhile {p : Char → Bool} {c : Char} {cs : List Char}
    (h : c ∈ cs.takeWhile p) : p c = true :=
  List.all_eq_true.mp List.all_takeWhile c h

theorem of_mem_cons_takeWhile {p : Char → Bool} {c : Char} {cs : List Char} (hc : p c = true) :
    ∀ d ∈ c :: cs.takeWhile p, p d = true := by
  intro d hm
  rcases List.mem_cons.mp hm with rfl | hm
  · exact hc
  · exact of_mem_takeWhile hm

theorem symbols_ne_nil : ∀ p ∈ TokenKind.symbols, p.1 ≠ [] := by decide

theorem cons_take_eq {xs cs : List Char} {c : Char} (hne : xs ≠ []) (h : xs <+: c :: cs) :
    c :: cs.take (xs.length - 1) = xs := by
  cases xs with
  | nil => exact absurd rfl hne
  | cons x xs =>
    obtain ⟨rfl, hx⟩ := List.cons_prefix_cons.mp h
    rw [List.length_cons, Nat.add_sub_cancel, ← List.prefix_iff_eq_take.mp hx]

namespace Token

/-- What `munch` can find: a number, a word, a quoted text or a symbol, told by the first
character. -/
theorem munch_cases {c : Char} {cs : List Char} {k : TokenKind} {n : Nat}
    (h : munch c cs = .ok (k, n)) :
    (c.isDigit = true ∧ n = (cs.takeWhile Char.isDigit).length ∧
      ∃ v, Number.ofInt? (decimalValue (c :: cs.takeWhile Char.isDigit)) = some v ∧
        k = .number v) ∨
    (¬ c.isDigit = true ∧ c.isAlpha = true ∧ n = (cs.takeWhile isWordChar).length ∧
      k = .ofWord (String.ofList (c :: cs.takeWhile isWordChar))) ∨
    (¬ c.isDigit = true ∧ ¬ c.isAlpha = true ∧ c = '"' ∧
      n = (cs.takeWhile isQuotable).length + 1 ∧
      cs[(cs.takeWhile isQuotable).length]? = some '"' ∧
      k = .text (String.ofList (cs.takeWhile isQuotable))) ∨
    (¬ c.isDigit = true ∧ ¬ c.isAlpha = true ∧ c ≠ '"' ∧ ∃ spelling,
      TokenKind.symbols.find? (fun s => s.1.isPrefixOf (c :: cs)) = some (spelling, k) ∧
        n = spelling.length - 1) := by
  unfold munch at h
  split at h
  · rename_i hd
    simp only at h
    split at h
    · rename_i v hv
      cases h
      exact .inl ⟨hd, rfl, v, hv, rfl⟩
    · cases h
  · rename_i hd
    split at h
    · rename_i ha
      cases h
      exact .inr (.inl ⟨hd, ha, rfl, rfl⟩)
    · rename_i ha
      split at h
      · rename_i hq
        simp only at h
        split at h
        · rename_i hb
          cases h
          exact .inr (.inr (.inl ⟨hd, ha, hq, rfl, hb, rfl⟩))
        · cases h
      · rename_i hq
        split at h
        · rename_i spelling kind hf
          cases h
          exact .inr (.inr (.inr ⟨hd, ha, hq, spelling, hf, rfl⟩))
        · cases h

theorem spells_of_munch {c : Char} {cs : List Char} {k : TokenKind} {n : Nat}
    (h : munch c cs = .ok (k, n)) : Spells (c :: cs.take n) k := by
  obtain ⟨hd, rfl, v, hv, rfl⟩ | ⟨_, ha, rfl, rfl⟩ | ⟨_, _, hq, rfl, hb, rfl⟩ |
    ⟨_, _, _, spelling, hf, rfl⟩ := munch_cases h
  · rw [take_length_takeWhile]
    exact .number (by simp) (of_mem_cons_takeWhile hd) (Number.ofInt?_eq_some_iff.mp hv)
  · rw [take_length_takeWhile]
    exact .word ha fun d hm => of_mem_takeWhile hm
  · rw [List.take_add_one, take_length_takeWhile, hb, hq]
    exact .text fun d hm => of_mem_takeWhile hm
  · have hmem := List.mem_of_find?_eq_some hf
    have hpre : spelling <+: c :: cs := by simpa using List.find?_some hf
    rw [cons_take_eq (symbols_ne_nil _ hmem) hpre]
    exact .symbol hmem

/-- A scan cuts off spelled tokens only, whatever characters are skipped at first. -/
theorem scanned_of_scanFrom {cs : List Char} :
    ∀ {line taken : Nat} {ts : List Token}, scanFrom line taken cs = .ok ts → Scanned ts := by
  induction cs with
  | nil =>
    intro line taken ts h
    cases h
    exact ⟨[], line, rfl, by simp⟩
  | cons c cs ih =>
    intro line taken ts h
    cases taken with
    | succ k => exact ih (by simpa only [scanFrom] using h)
    | zero =>
      simp only [scanFrom] at h
      split at h
      · exact ih h
      · split at h
        · cases h
        · rename_i kind n hm
          split at h
          · cases h
          · rename_i ts' hts
            cases h
            obtain ⟨body, line', rfl, hbody⟩ := ih hts
            refine ⟨_ :: body, line', rfl, ?_⟩
            intro t ht
            rcases List.mem_cons.mp ht with rfl | ht
            · simpa [Spelled] using spells_of_munch hm
            · exact hbody t ht

theorem scanned_of_scan {text : String} {ts : List Token} (h : scan text = .ok ts) : Scanned ts :=
  scanned_of_scanFrom h

end Token

/-! ## Keywords -/

theorem Query.ofKeyword?_eq_some_iff {word : String} {q : Query} :
    ofKeyword? word = some q ↔ word = q.keyword := by
  constructor
  · intro h
    exact (beq_iff_eq.mp (List.find?_some (p := fun q : Query => q.keyword == word) h)).symm
  · rintro rfl
    exact ofKeyword?_keyword q

theorem Command.ofKeyword?_eq_some_iff {word : String} {c : Command} :
    ofKeyword? word = some c ↔ word = c.keyword := by
  constructor
  · intro h
    exact (beq_iff_eq.mp (List.find?_some (p := fun c : Command => c.keyword == word) h)).symm
  · rintro rfl
    exact ofKeyword?_keyword c

/-- What a word can be. -/
theorem TokenKind.ofWord_cases (word : String) :
    (∃ b, ofWord word = .bool b) ∨ ofWord word = .goTo ∨
      (∃ c, word = c.keyword ∧ ofWord word = .command c) ∨
      (∃ q, word = q.keyword ∧ ofWord word = .query q) ∨ ofWord word = .name word := by
  unfold ofWord
  split
  · exact .inl ⟨true, rfl⟩
  · split
    · exact .inl ⟨false, rfl⟩
    · split
      · exact .inr (.inl rfl)
      · split
        · rename_i c hc
          exact .inr (.inr (.inl ⟨c, Command.ofKeyword?_eq_some_iff.mp hc, rfl⟩))
        · split
          · rename_i q hq
            exact .inr (.inr (.inr (.inl ⟨q, Query.ofKeyword?_eq_some_iff.mp hq, rfl⟩)))
          · exact .inr (.inr (.inr (.inr rfl)))

/-- A word is a query exactly when it is spelled as its keyword. -/
theorem TokenKind.ofWord_eq_query_iff {word : String} {q : Query} :
    ofWord word = .query q ↔ word = q.keyword := by
  constructor
  · intro h
    rcases ofWord_cases word with ⟨b, hb⟩ | hg | ⟨c, _, hc⟩ | ⟨q', hw, hq⟩ | hn
    · rw [hb] at h; cases h
    · rw [hg] at h; cases h
    · rw [hc] at h; cases h
    · rw [hq] at h; cases h; exact hw
    · rw [hn] at h; cases h
  · rintro rfl
    cases q <;> rfl

theorem Spells.ne_endOfInput {cs : List Char} {k : TokenKind} (h : Spells cs k) :
    k ≠ .endOfInput := by
  cases h with
  | number | text => simp
  | word =>
    rcases TokenKind.ofWord_cases _ with ⟨b, hb⟩ | hg | ⟨c, _, hc⟩ | ⟨q, _, hq⟩ | hn
    · rw [hb]; simp
    · rw [hg]; simp
    · rw [hc]; simp
    · rw [hq]; simp
    · rw [hn]; simp
  | symbol hs =>
    have hk : ∀ p ∈ TokenKind.symbols, p.2 ≠ .endOfInput := by decide
    exact hk _ hs

theorem Spells.query_iff {cs : List Char} {k : TokenKind} (h : Spells cs k) (q : Query) :
    cs = q.keyword.toList ↔ k = .query q := by
  cases h with
  | number hne hd hv =>
    have hq : ¬ ∀ c ∈ q.keyword.toList, c.isDigit = true := by
      cases q <;> simp [Query.keyword]
    exact ⟨fun h => absurd (h ▸ hd) hq, fun h => by cases h⟩
  | word ha hw =>
    rw [TokenKind.ofWord_eq_query_iff, ← String.toList_inj, String.toList_ofList]
  | text ht =>
    have hq : ¬ '"' ∈ q.keyword.toList := by cases q <;> decide
    exact ⟨fun h => absurd (h ▸ List.mem_cons_self) hq, fun h => by cases h⟩
  | symbol hs =>
    have hw : ∀ p ∈ TokenKind.symbols, p.1 ≠ q.keyword.toList := by cases q <;> decide
    have hk : ∀ p ∈ TokenKind.symbols, p.2 ≠ .query q := by cases q <;> decide
    exact ⟨fun h => absurd h (hw _ hs), fun h => absurd h (hk _ hs)⟩

theorem Token.Spelled.query_iff {t : Token} (h : t.Spelled) (q : Query) :
    Query.ofKeyword? t.lexeme = some q ↔ t.kind = .query q := by
  rw [Query.ofKeyword?_eq_some_iff, ← Spells.query_iff h q, String.toList_inj]

end Easel
