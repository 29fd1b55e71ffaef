import Easel.Proofs.Arithmetic
import Easel.Proofs.Lines

/-!
# Easel.Proofs.ScanFaults

A scan fails exactly where nothing more can be cut off a text, and the fault says what is in the way
(`Token.scan_fails_exactly`).

* `Loose`: what comes off the front of a text, a blank or a token that is as long as can be.
  `Cleared` is one such piece after the other, and on a `Stuck` text there is none.
* `Cleared.scanFrom_error_iff`: the scan of a text fails as that of what is left of it does, from
  one piece (`Loose.scanFrom_error_iff`) to all of them.
* `ScanFault.Explains`: what a fault says of the text that it was found on.
-/

namespace Easel

variable {c : Char} {cs xs ys done rest : List Char}

/-! ## Cutting off -/

/-- `Loose xs rest`: the text `xs ++ rest` starts with the blank or the token `xs`, and no more of
it could be a token. -/
inductive Loose : List Char → List Char → Prop where
  | blank {c : Char} {rest : List Char} : isBlank c = true → Loose [c] rest
  | token {xs rest : List Char} {k : TokenKind} : Spells xs k →
      (∀ ys, ys <+: xs ++ rest → Patterned ys → ys.length ≤ xs.length) → Loose xs rest

/-- `Cleared done rest`: one blank or token after the other, `done` comes off `done ++ rest`. -/
inductive Cleared : List Char → List Char → Prop where
  | nil {rest : List Char} : Cleared [] rest
  | cons {xs done rest : List Char} :
      Loose xs (done ++ rest) → Cleared done rest → Cleared (xs ++ done) rest

/-- Nothing comes off the text. -/
def Stuck (rest : List Char) : Prop := ∀ xs more, rest = xs ++ more → ¬ Loose xs more

theorem isBlank_iff : isBlank c = true ↔ c = ' ' ∨ c = '\t' ∨ c = '\r' ∨ c = '\x0c' := by
  simp [isBlank, or_assoc]

/-- No token starts with a blank. -/
theorem Spells.isBlank_eq_false {k : TokenKind} (h : Spells (c :: cs) k) : isBlank c = false := by
  rw [Bool.eq_false_iff]
  intro hb
  have hnone : ∀ p ∈ TokenKind.symbols, ∀ d ∈ p.1.take 1, isBlank d = false := by
    simp [TokenKind.symbols, isBlank]
  rw [spells_cons_iff] at h
  have hs : (c :: cs, k) ∈ TokenKind.symbols := by
    rcases isBlank_iff.mp hb with rfl | rfl | rfl | rfl <;> exact h
  have hf := hnone _ hs c (by simp)
  rw [hb] at hf
  cases hf

theorem Spells.not_blank_append {k : TokenKind} (h : Spells xs k) (heq : c :: cs = xs ++ rest) :
    ¬ isBlank c = true := by
  obtain ⟨x, xs, rfl⟩ := List.exists_cons_of_ne_nil h.ne_nil
  obtain ⟨rfl, _⟩ := List.cons.inj heq
  rw [h.isBlank_eq_false]
  simp

theorem Loose.ne_nil (h : Loose xs rest) : xs ≠ [] := by
  cases h with
  | blank => simp
  | token hs => exact hs.ne_nil

theorem Loose.unique {rest' : List Char} (h : Loose xs rest) (h' : Loose ys rest')
    (heq : xs ++ rest = ys ++ rest') : xs = ys := by
  cases h with
  | blank hb =>
    cases h' with
    | blank => rw [(List.cons.inj heq).1]
    | token hs => exact absurd hb (hs.not_blank_append heq)
  | token hs hl =>
    cases h' with
    | blank hb => exact absurd hb (hs.not_blank_append heq.symm)
    | token hs' hl' =>
      have hle := hl' xs (heq ▸ List.prefix_append ..) (.inr ⟨_, hs⟩)
      have hge := hl ys (heq ▸ List.prefix_append ..) (.inr ⟨_, hs'⟩)
      exact (List.append_inj heq (Nat.le_antisymm hle hge)).1

/-- There is one way to clear a text. -/
theorem Cleared.unique {done' rest' : List Char} (h : Cleared done rest) (hs : Stuck rest)
    (h' : Cleared done' rest') (hs' : Stuck rest') (heq : done ++ rest = done' ++ rest') :
    done = done' ∧ rest = rest' := by
  induction h generalizing done' with
  | nil =>
    cases h' with
    | nil => exact ⟨rfl, heq⟩
    | cons hl _ => exact absurd hl (hs _ _ (by rw [← List.append_assoc]; exact heq))
  | cons hl _ ih =>
    cases h' with
    | nil => exact absurd hl (hs' _ _ (by rw [← List.append_assoc]; exact heq.symm))
    | cons hl' h' =>
      rw [List.append_assoc, List.append_assoc] at heq
      obtain rfl := hl.unique hl' heq
      obtain ⟨rfl, rfl⟩ := ih hs h' (List.append_cancel_left heq)
      exact ⟨rfl, rfl⟩

/-- Every text can be cleared until it is stuck. -/
theorem exists_cleared (cs : List Char) : ∃ done rest, cs = done ++ rest ∧ Cleared done rest ∧
    Stuck rest := by
  induction hlen : cs.length using Nat.strongRecOn generalizing cs with
  | _ len ih =>
    by_cases hs : Stuck cs
    · exact ⟨[], cs, rfl, .nil, hs⟩
    · simp only [Stuck, Classical.not_forall, Classical.not_not] at hs
      obtain ⟨xs, more, rfl, hl⟩ := hs
      have hlt : more.length < len := by
        have := List.length_pos_iff.mpr hl.ne_nil
        rw [← hlen, List.length_append]
        omega
      obtain ⟨done, rest, rfl, hc, hstuck⟩ := ih _ hlt more rfl
      exact ⟨xs ++ done, rest, (List.append_assoc ..).symm, .cons hl hc, hstuck⟩

/-! ## The scan of a text that is cleared -/

/-- A quote is closed where another one comes before the next newline. -/
theorem getElem?_takeWhile_isQuotable_iff {body : List Char} :
    body[(body.takeWhile isQuotable).length]? = some '"' ↔
      ∃ pre post, body = pre ++ '"' :: post ∧ '\n' ∉ pre := by
  induction body with
  | nil => simp
  | cons c body ih =>
    by_cases hc : isQuotable c = true
    · obtain ⟨hquote, hnewline⟩ : c ≠ '"' ∧ c ≠ '\n' := by simpa [isQuotable] using hc
      rw [List.takeWhile_cons_of_pos hc, List.length_cons, List.getElem?_cons_succ, ih]
      constructor
      · rintro ⟨pre, post, rfl, hn⟩
        exact ⟨c :: pre, post, rfl, by simp [hn, Ne.symm hnewline]⟩
      · rintro ⟨pre, post, heq, hn⟩
        cases pre with
        | nil => exact absurd (List.cons.inj heq).1 hquote
        | cons d pre => exact ⟨pre, post, (List.cons.inj heq).2, fun h => hn (by simp [h])⟩
    · rw [List.takeWhile_cons_of_neg hc]
      constructor
      · intro h
        obtain rfl : c = '"' := Option.some.inj h
        exact ⟨[], body, rfl, by simp⟩
      · rintro ⟨pre, post, heq, hn⟩
        cases pre with
        | nil => rw [(List.cons.inj heq).1]; rfl
        | cons d pre =>
          -- The first character is no newline, so it is itself the quote.
          obtain ⟨rfl, _⟩ := List.cons.inj heq
          have hne : c ≠ '\n' := fun h => hn (by simp [h])
          simpa [isQuotable, hne] using hc

namespace Token

theorem loose_of_munch {k : TokenKind} {n : Nat} (h : munch c cs = .ok (k, n)) :
    Loose (c :: cs.take n) (cs.drop n) := by
  refine .token (spells_of_munch h) fun ys hy hp => ?_
  rw [List.cons_append, List.take_append_drop] at hy
  have h₁ := munch_longest h hy hp
  have h₂ := hy.length_le
  simp only [List.length_cons, List.length_take] at h₂ ⊢
  omega

/-- There is no token to come off where `munch` fails. -/
theorem munch_ne_error {k : TokenKind} {f : ScanFault} (hs : Spells (c :: xs) k)
    (hl : ∀ ys, ys <+: c :: xs ++ rest → Patterned ys → ys.length ≤ (c :: xs).length) :
    munch c (xs ++ rest) ≠ .error f := by
  intro hm
  have hcons := spells_cons_iff.mp hs
  obtain ⟨hd, hv, _⟩ | ⟨rfl, hq, _⟩ | ⟨hd, ha, hq, hf, _⟩ := munch_error_cases hm
  · rw [if_pos hd] at hcons
    obtain ⟨hds, n, hn, _⟩ := hcons
    -- More digits behind the token would belong to it.
    have hrun : (xs ++ rest).takeWhile Char.isDigit = xs := by
      have hle := hl (c :: (xs ++ rest).takeWhile Char.isDigit)
        (List.cons_prefix_cons.mpr ⟨rfl, List.takeWhile_prefix _⟩)
        (.inl ⟨by simp, of_mem_cons_takeWhile hd⟩)
      rw [List.takeWhile_append_of_pos hds] at hle ⊢
      simp only [List.length_cons, List.length_append] at hle
      have hnil : rest.takeWhile Char.isDigit = [] := List.length_eq_zero_iff.mp (by omega)
      rw [hnil, List.append_nil]
    rw [hrun, Number.ofInt?_eq_some_iff.mpr hn] at hv
    cases hv
  · obtain ⟨body, rfl, hb, _⟩ : ∃ body, xs = body ++ ['"'] ∧ (∀ d ∈ body, isQuotable d = true) ∧
        k = .text (String.ofList body) := hcons
    refine hq (getElem?_takeWhile_isQuotable_iff.mpr ⟨body, rest, by simp, fun hn => ?_⟩)
    exact absurd (hb _ hn) (by decide)
  · rw [if_neg hd, if_neg ha, if_neg hq] at hcons
    have hnone := List.find?_eq_none.mp hf _ hcons
    simp at hnone

/-- `munch` finds the token that comes off, and leaves what is behind it. -/
theorem exists_munch_of_longest {k : TokenKind} (hs : Spells (c :: xs) k)
    (hl : ∀ ys, ys <+: c :: xs ++ rest → Patterned ys → ys.length ≤ (c :: xs).length) :
    ∃ n, munch c (xs ++ rest) = .ok (k, n) ∧ (xs ++ rest).drop n = rest := by
  cases hm : munch c (xs ++ rest) with
  | error f => exact absurd hm (munch_ne_error hs hl)
  | ok m =>
    obtain ⟨k', n⟩ := m
    have hsplit := List.take_append_drop n (xs ++ rest)
    have heq : c :: (xs ++ rest).take n = c :: xs := by
      refine (loose_of_munch hm).unique (.token hs hl) ?_
      rw [List.cons_append, hsplit]
      rfl
    have hk := spells_of_munch hm
    rw [heq] at hk
    rw [(List.cons.inj heq).2] at hsplit
    exact ⟨n, by rw [hk.unique hs], List.append_cancel_left hsplit⟩

/-- The scan of a token that comes off, and of what is behind it. -/
theorem scanFrom_token {k : TokenKind} (hs : Spells xs k)
    (hl : ∀ ys, ys <+: xs ++ rest → Patterned ys → ys.length ≤ xs.length) (line : Nat) :
    scanFrom line 0 (xs ++ rest) =
      (⟨k, String.ofList xs, line⟩ :: ·) <$> scanFrom (lineAfter k line) 0 rest := by
  obtain ⟨c, xs, rfl⟩ := List.exists_cons_of_ne_nil hs.ne_nil
  obtain ⟨n, hm, hrest⟩ := exists_munch_of_longest hs hl
  have htake : (xs ++ rest).take n = xs := by
    have hsplit := List.take_append_drop n (xs ++ rest)
    rw [hrest] at hsplit
    exact List.append_cancel_right hsplit
  rw [List.cons_append, scanFrom_cons (by simp [hs.isBlank_eq_false]), hm]
  simp only [hrest, htake]
  cases scanFrom (lineAfter k line) 0 rest <;> rfl

end Token

theorem stuck_cons_iff :
    Stuck (c :: cs) ↔ isBlank c = false ∧ ∃ f, Token.munch c cs = .error f := by
  constructor
  · intro h
    refine ⟨?_, ?_⟩
    · exact Bool.eq_false_iff.mpr fun hb => h [c] cs rfl (.blank hb)
    · cases hm : Token.munch c cs with
      | error f => exact ⟨f, rfl⟩
      | ok m =>
        refine absurd (Token.loose_of_munch hm) (h _ _ ?_)
        rw [List.cons_append, List.take_append_drop]
  · rintro ⟨hb, f, hm⟩ xs more heq hl
    cases hl with
    | blank hc =>
      obtain ⟨rfl, _⟩ := List.cons.inj heq
      rw [hb] at hc
      cases hc
    | token hs hlong =>
      obtain ⟨x, xs, rfl⟩ := List.exists_cons_of_ne_nil hs.ne_nil
      obtain ⟨rfl, rfl⟩ := List.cons.inj heq
      exact Token.munch_ne_error hs hlong hm

open Token in
/-- The scan goes on behind a piece that comes off. -/
theorem Loose.scanFrom_error_iff (h : Loose xs rest) (line : Nat) (d : Diagnostic) :
    scanFrom line 0 (xs ++ rest) = .error d ↔
      scanFrom (line + xs.count '\n') 0 rest = .error d := by
  cases h with
  | @blank c _ hb =>
    have hc : c ≠ '\n' := by rintro rfl; cases hb
    rw [List.cons_append, scanFrom, if_pos hb, List.count_cons_of_ne hc]
    rfl
  | @token xs rest k hs hl =>
    rw [scanFrom_token hs hl, lineAfter_eq hs]
    cases scanFrom (line + xs.count '\n') 0 rest <;> simp [Functor.map, Except.map]

open Token in
theorem Cleared.scanFrom_error_iff (h : Cleared done rest) (line : Nat) (d : Diagnostic) :
    scanFrom line 0 (done ++ rest) = .error d ↔
      scanFrom (line + done.count '\n') 0 rest = .error d := by
  induction h generalizing line with
  | nil => rfl
  | cons hl _ ih =>
    rw [List.append_assoc, hl.scanFrom_error_iff, ih, List.count_append, Nat.add_assoc]

/-! ## What is in the way -/

/-- The text starts with a quote, and no other comes before the next newline or the end. -/
def Unclosed (rest : List Char) : Prop :=
  ∃ body, rest = '"' :: body ∧ ∀ pre post, body = pre ++ '"' :: post → '\n' ∈ pre

/-- `ds` are all the digits that the text starts with, and their value has no number. -/
structure Oversized (ds rest : List Char) : Prop where
  ne_nil : ds ≠ []
  digits : ∀ c ∈ ds, c.isDigit = true
  whole : ∃ more, rest = ds ++ more ∧ ∀ c ∈ more.head?, c.isDigit = false
  large : 2 ^ 63 - 1 < decimalValue ds

/-- What a fault says of the text that it was found on. -/
structure ScanFault.Explains (f : ScanFault) (rest : List Char) : Prop where
  unterminated_iff : f = .unterminatedString ↔ Unclosed rest
  outOfRange_iff : ∀ digits, f = .numberOutOfRange digits ↔ Oversized digits.toList rest
  unrecognized_iff : ∀ c, f = .unrecognizedCharacter c ↔
    rest.head? = some c ∧ ¬ Unclosed rest ∧ ∀ ds, ¬ Oversized ds rest
  unstarted : ∀ c, f = .unrecognizedCharacter c → ∀ xs, xs <+: rest → ¬ Patterned xs

theorem unclosed_cons_iff :
    Unclosed (c :: cs) ↔ c = '"' ∧ cs[(cs.takeWhile isQuotable).length]? ≠ some '"' := by
  rw [Ne, getElem?_takeWhile_isQuotable_iff]
  constructor
  · rintro ⟨body, heq, hb⟩
    obtain ⟨rfl, rfl⟩ := List.cons.inj heq
    exact ⟨rfl, fun ⟨pre, post, h, hn⟩ => hn (hb pre post h)⟩
  · rintro ⟨rfl, h⟩
    refine ⟨cs, rfl, fun pre post heq => Classical.byContradiction fun hn => ?_⟩
    exact h ⟨pre, post, heq, hn⟩

theorem oversized_cons_iff {ds : List Char} :
    Oversized ds (c :: cs) ↔ c.isDigit = true ∧ ds = c :: cs.takeWhile Char.isDigit ∧
      Number.ofInt? (decimalValue ds) = none := by
  have hlarge : Number.ofInt? (decimalValue ds) = none ↔ 2 ^ 63 - 1 < decimalValue ds := by
    rw [Number.ofInt?_eq_none_iff_not_fits, Fits]
    omega
  rw [hlarge]
  constructor
  · rintro ⟨hne, hd, ⟨more, heq, hmore⟩, hl⟩
    obtain ⟨d, ds, rfl⟩ := List.exists_cons_of_ne_nil hne
    obtain ⟨rfl, rfl⟩ := List.cons.inj heq
    have hnil : more.takeWhile Char.isDigit = [] := by
      cases more with
      | nil => rfl
      | cons m more => rw [List.takeWhile_cons_of_neg (by simp [hmore m rfl])]
    have hrun : (ds ++ more).takeWhile Char.isDigit = ds := by
      rw [List.takeWhile_append_of_pos fun d h => hd d (by simp [h]), hnil, List.append_nil]
    exact ⟨hd c (by simp), congrArg (c :: ·) hrun.symm, hl⟩
  · rintro ⟨hd, rfl, hl⟩
    refine ⟨by simp, of_mem_cons_takeWhile hd, ⟨cs.dropWhile Char.isDigit, ?_, ?_⟩, hl⟩
    · rw [List.cons_append, List.takeWhile_append_dropWhile]
    · intro d hm
      have hnot := List.head?_dropWhile_not Char.isDigit cs
      rw [hm] at hnot
      simpa using hnot

/-- A word, a number or a symbol would have been found. -/
theorem not_patterned_of_find? (hd : ¬ c.isDigit = true) (ha : ¬ c.isAlpha = true) (hq : c ≠ '"')
    (hf : TokenKind.symbols.find? (fun s => s.1.isPrefixOf (c :: cs)) = none)
    (hx : xs <+: c :: cs) : ¬ Patterned xs := by
  intro hp
  obtain ⟨x, xs, rfl⟩ := List.exists_cons_of_ne_nil hp.ne_nil
  obtain ⟨rfl, _⟩ := List.cons_prefix_cons.mp hx
  have hcons := hp.cons
  rw [if_neg hd, if_neg ha, if_neg hq] at hcons
  obtain ⟨k, hk⟩ := hcons
  have hnone := List.find?_eq_none.mp hf _ hk
  exact hnone (List.isPrefixOf_iff_prefix.mpr hx)

theorem Token.explains_of_munch {f : ScanFault} (h : munch c cs = .error f) :
    f.Explains (c :: cs) := by
  obtain ⟨hd, hv, rfl⟩ | ⟨rfl, hq, rfl⟩ | ⟨hd, ha, hq, hf, rfl⟩ := munch_error_cases h
  · have hc : c ≠ '"' := by rintro rfl; cases hd
    have hun : ¬ Unclosed (c :: cs) := fun h => hc (unclosed_cons_iff.mp h).1
    have hover := oversized_cons_iff.mpr ⟨hd, rfl, hv⟩
    refine ⟨by simp [hun], fun digits => ?_, fun d => ?_, by simp⟩
    · constructor
      · rintro ⟨⟩
        rw [String.toList_ofList]
        exact hover
      · intro ho
        rw [← (oversized_cons_iff.mp ho).2.1, String.ofList_toList]
    · constructor
      · intro hk
        cases hk
      · rintro ⟨_, _, hno⟩
        exact absurd hover (hno _)
  · have hun : Unclosed ('"' :: cs) := unclosed_cons_iff.mpr ⟨rfl, hq⟩
    have hover : ∀ ds, ¬ Oversized ds ('"' :: cs) := by
      intro ds ho
      cases (oversized_cons_iff.mp ho).1
    refine ⟨by simp [hun], fun digits => by simp [hover], fun d => by simp [hun], by simp⟩
  · have hun : ¬ Unclosed (c :: cs) := fun h => hq (unclosed_cons_iff.mp h).1
    have hover : ∀ ds, ¬ Oversized ds (c :: cs) := fun ds ho => hd (oversized_cons_iff.mp ho).1
    refine ⟨by simp [hun], fun digits => by simp [hover], fun d => by simp [hun, hover], ?_⟩
    exact fun _ _ xs hx => not_patterned_of_find? hd ha hq hf hx

/-- A character with which no token starts, because of itself or of what comes next. -/
def Lone (c : Char) (more : List Char) : Prop :=
  c = '_' ∨ ((c = '&' ∨ c = '|' ∨ c = '=') ∧ more.head? ≠ some c)

theorem Lone.munch_eq (h : Lone c cs) : Token.munch c cs = .error (.unrecognizedCharacter c) := by
  have hclass : ¬ c.isDigit = true ∧ ¬ c.isAlpha = true ∧ c ≠ '"' := by
    rcases h with rfl | ⟨rfl | rfl | rfl, _⟩ <;> decide
  have hdouble : ∀ p ∈ TokenKind.symbols, p.1.head? = some c → c ≠ '_' ∧ p.1 = [c, c] := by
    rcases h with rfl | ⟨rfl | rfl | rfl, _⟩ <;> decide
  have hfind : TokenKind.symbols.find? (fun s => s.1.isPrefixOf (c :: cs)) = none := by
    refine List.find?_eq_none.mpr fun p hp hpre => ?_
    obtain ⟨more, hmore⟩ := List.isPrefixOf_iff_prefix.mp hpre
    obtain ⟨x, xs, hx⟩ := List.exists_cons_of_ne_nil (symbols_ne_nil p hp)
    rw [hx] at hmore
    obtain ⟨hne, hcc⟩ := hdouble p hp (by rw [hx, (List.cons.inj hmore).1]; rfl)
    rcases h with hu | ⟨_, hhead⟩
    · exact hne hu
    · obtain ⟨rfl, rfl⟩ := List.cons.inj (hx.symm.trans hcc)
      exact hhead (by rw [← (List.cons.inj hmore).2]; rfl)
  rw [Token.munch, if_neg hclass.1, if_neg hclass.2.1, if_neg hclass.2.2, hfind]

theorem Lone.isBlank_eq_false (h : Lone c cs) : isBlank c = false := by
  rcases h with rfl | ⟨rfl | rfl | rfl, _⟩ <;> rfl

namespace Token

/-- The scan fails where the text is stuck, on the line that it has come to. -/
theorem scan_of_cleared {text : String} {f : ScanFault} (htext : text.toList = done ++ c :: cs)
    (hc : Cleared done (c :: cs)) (hb : isBlank c = false) (hm : munch c cs = .error f) :
    scan text = .error ⟨1 + done.count '\n', .scan f⟩ := by
  rw [scan, htext, hc.scanFrom_error_iff, scanFrom_cons (by simp [hb]), hm]

/-- The scan of a text depends on whether something is left of it. -/
theorem scan_of_stuck {text : String} (htext : text.toList = done ++ rest)
    (hc : Cleared done rest) (hs : Stuck rest) :
    (rest = [] ∧ ∀ d, scan text ≠ .error d) ∨
      (rest ≠ [] ∧ ∃ f, scan text = .error ⟨1 + done.count '\n', .scan f⟩ ∧ f.Explains rest) := by
  cases rest with
  | nil =>
    refine .inl ⟨rfl, fun d h => ?_⟩
    rw [scan, htext, hc.scanFrom_error_iff] at h
    cases h
  | cons c cs =>
    obtain ⟨hb, f, hm⟩ := stuck_cons_iff.mp hs
    exact .inr ⟨by simp, f, scan_of_cleared htext hc hb hm, explains_of_munch hm⟩

/-- A text is cleared from the left as far as that goes, which can be done in one way only, and its
scan fails if something is left: on the line of what is left, with a fault that explains it. -/
theorem scan_fails_exactly (text : String) :
    ∃ done rest, text.toList = done ++ rest ∧ Cleared done rest ∧ Stuck rest ∧
      (∀ done' rest', text.toList = done' ++ rest' → Cleared done' rest' → Stuck rest' →
        done' = done ∧ rest' = rest) ∧
      ((∃ d, scan text = .error d) ↔ rest ≠ []) ∧
      (∀ d, scan text = .error d →
        ∃ f, d = ⟨1 + done.count '\n', .scan f⟩ ∧ f.Explains rest) ∧
      (∀ done' c more, text.toList = done' ++ c :: more → Cleared done' (c :: more) →
        Lone c more →
          scan text = .error ⟨1 + done'.count '\n', .scan (.unrecognizedCharacter c)⟩) := by
  obtain ⟨done, rest, htext, hc, hs⟩ := exists_cleared text.toList
  have hunique : ∀ done' rest', text.toList = done' ++ rest' → Cleared done' rest' → Stuck rest' →
      done' = done ∧ rest' = rest := by
    intro done' rest' htext' hc' hs'
    exact hc'.unique hs' hc hs (htext'.symm.trans htext)
  have hlone : ∀ done' c more, text.toList = done' ++ c :: more → Cleared done' (c :: more) →
      Lone c more →
        scan text = .error ⟨1 + done'.count '\n', .scan (.unrecognizedCharacter c)⟩ := by
    intro done' c more htext' hc' hl
    exact scan_of_cleared htext' hc' hl.isBlank_eq_false hl.munch_eq
  refine ⟨done, rest, htext, hc, hs, hunique, ?_, ?_, hlone⟩
  · obtain ⟨hnil, hok⟩ | ⟨hne, f, herr, _⟩ := scan_of_stuck htext hc hs
    · simp [hnil, hok]
    · simp [hne, herr]
  · intro d hd
    obtain ⟨_, hok⟩ | ⟨_, f, herr, hex⟩ := scan_of_stuck htext hc hs
    · exact absurd hd (hok d)
    · rw [herr] at hd
      cases hd
      exact ⟨f, rfl, hex⟩

-- Zeros in front make a number longer and not larger.
example : scan "000000000000000000000000000042" =
    .ok [⟨.number 42, "000000000000000000000000000042", 1⟩, ⟨.endOfInput, "", 1⟩] := rfl

end Token

end Easel
