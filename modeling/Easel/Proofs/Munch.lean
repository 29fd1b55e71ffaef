import Easel.Proofs.Spelling

/-!
# Easel.Proofs.Munch

A scan cuts a text into its tokens and the blanks between them, loses nothing, and cuts off as much
as it can each time (`Token.scan_partition`).

* `spells_cons_iff`: the first character tells which rule of spelling applies, so what a piece of
  text spells is determined (`Spells.unique`).
* `Spells.reserved_iff`: a reserved word is a keyword wherever it is a token.
* `Token.munch_longest`: nothing that starts where a token starts, and is longer, could be a token.
-/

namespace Easel

/-! ## The first character -/

theorem isDigit_of_isAlpha {c : Char} (h : c.isAlpha = true) : c.isDigit = false := by
  delta Char.isAlpha Char.isUpper Char.isLower at h
  simp only [Char.isDigit, Bool.or_eq_true, Bool.and_eq_true, decide_eq_true_eq,
    Bool.and_eq_false_iff, decide_eq_false_iff_not, UInt32.le_iff_toNat_le] at h ⊢
  simp at h ⊢
  omega

/-- No symbol starts like a number, a word or a text. -/
theorem symbols_head {c : Char} {cs : List Char} {k : TokenKind}
    (h : (c :: cs, k) ∈ TokenKind.symbols) :
    c.isDigit = false ∧ c.isAlpha = false ∧ c ≠ '"' := by
  have hall : ∀ p ∈ TokenKind.symbols, ∀ d ∈ p.1.take 1,
      d.isDigit = false ∧ d.isAlpha = false ∧ d ≠ '"' := by simp [TokenKind.symbols]
  exact hall _ h c (by simp)

theorem spells_cons_iff {c : Char} {cs : List Char} {k : TokenKind} :
    Spells (c :: cs) k ↔
      if c.isDigit then
        (∀ d ∈ cs, d.isDigit = true) ∧ ∃ n : Number, n.toInt = decimalValue (c :: cs) ∧
          k = .number n
      else if c.isAlpha then
        (∀ d ∈ cs, isWordChar d = true) ∧ k = .ofWord (String.ofList (c :: cs))
      else if c = '"' then
        ∃ body, cs = body ++ ['"'] ∧ (∀ d ∈ body, isQuotable d = true) ∧
          k = .text (String.ofList body)
      else (c :: cs, k) ∈ TokenKind.symbols := by
  constructor
  · intro h
    generalize hw : c :: cs = word at h
    cases h with
    | @number ds n hne hd hv =>
      subst hw
      rw [if_pos (hd c (by simp))]
      exact ⟨fun d h => hd d (by simp [h]), n, hv, rfl⟩
    | @word c' cs' ha hcs =>
      cases hw
      rw [isDigit_of_isAlpha ha, if_neg (by simp), if_pos ha]
      exact ⟨hcs, rfl⟩
    | @text body hb =>
      cases hw
      exact ⟨body, rfl, hb, rfl⟩
    | symbol hs =>
      subst hw
      obtain ⟨h₁, h₂, h₃⟩ := symbols_head hs
      rw [h₁, h₂, if_neg (by simp), if_neg (by simp), if_neg h₃]
      exact hs
  · intro h
    split at h
    · rename_i hd
      obtain ⟨hds, n, hn, rfl⟩ := h
      refine .number (by simp) ?_ hn
      intro d hm
      rcases List.mem_cons.mp hm with rfl | hm
      · exact hd
      · exact hds d hm
    · split at h
      · rename_i ha
        obtain ⟨hcs, rfl⟩ := h
        exact .word ha hcs
      · split at h
        · rename_i hq
          obtain ⟨body, rfl, hb, rfl⟩ := h
          rw [hq]
          exact .text hb
        · exact .symbol h

theorem Spells.ne_nil {cs : List Char} {k : TokenKind} (h : Spells cs k) : cs ≠ [] := by
  cases h with
  | number hne => exact hne
  | word => simp
  | text => simp
  | symbol hs => exact symbols_ne_nil _ hs

/-- What a piece of text spells is determined. -/
theorem Spells.unique {cs : List Char} {k k' : TokenKind} (h : Spells cs k) (h' : Spells cs k') :
    k = k' := by
  obtain ⟨c, cs, rfl⟩ := List.exists_cons_of_ne_nil h.ne_nil
  rw [spells_cons_iff] at h h'
  split at h
  · rename_i hd
    rw [if_pos hd] at h'
    obtain ⟨_, n, hn, rfl⟩ := h
    obtain ⟨_, n', hn', rfl⟩ := h'
    rw [Int64.toInt_inj.mp (hn.trans hn'.symm)]
  · rename_i hd
    rw [if_neg hd] at h'
    split at h
    · rename_i ha
      rw [if_pos ha] at h'
      rw [h.2, h'.2]
    · rename_i ha
      rw [if_neg ha] at h'
      split at h
      · rename_i hq
        rw [if_pos hq] at h'
        obtain ⟨body, rfl, _, rfl⟩ := h
        obtain ⟨body', hb, _, rfl⟩ := h'
        rw [List.append_cancel_right hb]
      · rename_i hq
        rw [if_neg hq] at h'
        have hinj : ∀ p ∈ TokenKind.symbols, ∀ p' ∈ TokenKind.symbols, p.1 = p'.1 → p.2 = p'.2 := by
          decide
        exact hinj _ h _ h' rfl

/-! ## Reserved words -/

namespace TokenKind

/-- The word that is reserved for a kind. -/
def reserved? : TokenKind → Option String
  | .bool true => some "true"
  | .bool false => some "false"
  | .goTo => some "GoTo"
  | .command c => some c.keyword
  | .query q => some q.keyword
  | _ => none

theorem ofWord_of_reserved? {k : TokenKind} {word : String} (h : k.reserved? = some word) :
    ofWord word = k := by
  cases k with
  | bool b => cases b <;> cases h <;> rfl
  | goTo => cases h; rfl
  | command c => cases h; cases c <;> rfl
  | query q => cases h; cases q <;> rfl
  | _ => cases h

theorem reserved?_ofWord (word : String) :
    (ofWord word).reserved? = some word ∨ ofWord word = .name word := by
  unfold ofWord
  split
  · rename_i h
    exact .inl (by rw [h]; rfl)
  · split
    · rename_i h
      exact .inl (by rw [h]; rfl)
    · split
      · rename_i h
        exact .inl (by rw [h]; rfl)
      · split
        · rename_i c hc
          exact .inl (by rw [Command.ofKeyword?_eq_some_iff.mp hc]; rfl)
        · split
          · rename_i q hq
            exact .inl (by rw [Query.ofKeyword?_eq_some_iff.mp hq]; rfl)
          · exact .inr rfl

/-- A reserved word starts like a word. -/
theorem isAlpha_of_reserved? {k : TokenKind} {word : String} (h : k.reserved? = some word) :
    ∃ c cs, word.toList = c :: cs ∧ c.isAlpha = true := by
  cases k with
  | bool b => cases b <;> cases h <;> exact ⟨_, _, rfl, rfl⟩
  | goTo => cases h; exact ⟨_, _, rfl, rfl⟩
  | command c => cases h; cases c <;> exact ⟨_, _, rfl, rfl⟩
  | query q => cases h; cases q <;> exact ⟨_, _, rfl, rfl⟩
  | _ => cases h

end TokenKind

theorem Spells.reserved_iff {cs : List Char} {k k' : TokenKind} {word : String} (h : Spells cs k)
    (hw : k'.reserved? = some word) : k = k' ↔ cs = word.toList := by
  constructor
  · rintro rfl
    cases h with
    | number => cases hw
    | @word c cs =>
      rcases TokenKind.reserved?_ofWord (String.ofList (c :: cs)) with hr | hn
      · rw [hr] at hw
        rw [← Option.some.inj hw, String.toList_ofList]
      · rw [hn] at hw
        cases hw
    | text => cases hw
    | symbol hs =>
      have hnone : ∀ p ∈ TokenKind.symbols, p.2.reserved? = none := by decide
      rw [hnone _ hs] at hw
      cases hw
  · rintro rfl
    obtain ⟨c, cs, hcs, ha⟩ := TokenKind.isAlpha_of_reserved? hw
    rw [hcs, spells_cons_iff, isDigit_of_isAlpha ha, if_neg (by simp), if_pos ha] at h
    rw [h.2, ← hcs, String.ofList_toList, TokenKind.ofWord_of_reserved? hw]

/-- The number, text or name in a kind is the one that the characters spell. -/
def TokenKind.Carries (cs : List Char) : TokenKind → Prop
  | .number n => (∀ c ∈ cs, c.isDigit = true) ∧ n.toInt = decimalValue cs
  | .text s => cs = '"' :: (s.toList ++ ['"'])
  | .name x => cs = x.toList
  | _ => True

theorem Spells.carries {cs : List Char} {k : TokenKind} (h : Spells cs k) : k.Carries cs := by
  cases h with
  | number _ hd hv => exact ⟨hd, hv⟩
  | @word c cs =>
    generalize hw : String.ofList (c :: cs) = word
    rcases TokenKind.reserved?_ofWord word with hr | hn
    · cases hk : TokenKind.ofWord word with
      | number n | text s | name x => rw [hk] at hr; cases hr
      | _ => trivial
    · rw [hn, ← hw]
      exact String.toList_ofList.symm
  | text => simp [TokenKind.Carries]
  | symbol hs =>
    have hnone : ∀ p ∈ TokenKind.symbols, p.2.Carries p.1 := by
      simp [TokenKind.symbols, TokenKind.Carries]
    exact hnone _ hs

/-- The kind of a token, and the number, text or name in it, are what its piece of text says. -/
structure Token.Determined (t : Token) : Prop where
  spelled : Spells t.lexeme.toList t.kind
  unique : ∀ k, Spells t.lexeme.toList k → k = t.kind
  reserved : ∀ k word, k.reserved? = some word → (t.kind = k ↔ t.lexeme = word)
  carries : t.kind.Carries t.lexeme.toList

theorem Token.Spelled.determined {t : Token} (h : t.Spelled) : t.Determined where
  spelled := h
  unique _ hk := hk.unique h
  reserved _ _ hw := by rw [Spells.reserved_iff h hw, String.toList_inj]
  carries := Spells.carries h

/-! ## The longest spelling -/

/-- The characters follow one of the rules by which tokens are found, even if the number in them is
out of range. -/
def Patterned (cs : List Char) : Prop :=
  (cs ≠ [] ∧ ∀ c ∈ cs, c.isDigit = true) ∨ ∃ k, Spells cs k

theorem length_le_takeWhile {p : Char → Bool} {xs cs : List Char} (hx : xs <+: cs)
    (hp : ∀ c ∈ xs, p c = true) : xs.length ≤ (cs.takeWhile p).length := by
  obtain ⟨ys, rfl⟩ := hx
  rw [List.takeWhile_append_of_pos hp, List.length_append]
  exact Nat.le_add_right ..

theorem Patterned.ne_nil {cs : List Char} (h : Patterned cs) : cs ≠ [] := by
  rcases h with ⟨hne, _⟩ | ⟨k, hk⟩
  · exact hne
  · exact hk.ne_nil

/-- The first character tells how a piece of text that follows the rules goes on. -/
theorem Patterned.cons {c : Char} {cs : List Char} (h : Patterned (c :: cs)) :
    if c.isDigit then ∀ d ∈ cs, d.isDigit = true
    else if c.isAlpha then ∀ d ∈ cs, isWordChar d = true
    else if c = '"' then ∃ body, cs = body ++ ['"'] ∧ ∀ d ∈ body, isQuotable d = true
    else ∃ k, (c :: cs, k) ∈ TokenKind.symbols := by
  rcases h with ⟨_, hd⟩ | ⟨k, hk⟩
  · rw [if_pos (hd c (by simp))]
    exact fun d h => hd d (by simp [h])
  · rw [spells_cons_iff] at hk
    split at hk
    · rename_i hd
      rw [if_pos hd]
      exact hk.1
    · rename_i hd
      rw [if_neg hd]
      split at hk
      · rename_i ha
        rw [if_pos ha]
        exact hk.1
      · rename_i ha
        rw [if_neg ha]
        split at hk
        · rename_i hq
          obtain ⟨body, hcs, hb, _⟩ := hk
          rw [if_pos hq]
          exact ⟨body, hcs, hb⟩
        · rename_i hq
          rw [if_neg hq]
          exact ⟨k, hk⟩

/-- The table of symbols is searched from the longer ones to the shorter. -/
theorem symbols_longest {cs xs : List Char} {k k' : TokenKind} {spelling : List Char}
    (h : TokenKind.symbols.find? (fun s => s.1.isPrefixOf cs) = some (spelling, k))
    (hx : xs <+: cs) (hs : (xs, k') ∈ TokenKind.symbols) : xs.length ≤ spelling.length := by
  have hsorted : TokenKind.symbols.Pairwise fun s s' => s'.1.length ≤ s.1.length := by decide
  obtain ⟨_, before, after, hsym, hnone⟩ := List.find?_eq_some_iff_append.mp h
  rw [hsym] at hsorted hs
  rcases List.mem_append.mp hs with hs | hs
  · have := hnone _ hs
    rw [List.isPrefixOf_iff_prefix.mpr hx] at this
    cases this
  · rcases List.mem_cons.mp hs with he | hs
    · cases he
      exact Nat.le_refl _
    · exact (List.pairwise_cons.mp (List.pairwise_append.mp hsorted).2.1).1 _ hs

namespace Token

/-- What `munch` cuts off is as long as any piece of text that follows the rules. -/
theorem munch_longest {c : Char} {cs xs : List Char} {k : TokenKind} {n : Nat}
    (h : munch c cs = .ok (k, n)) (hx : xs <+: c :: cs) (hp : Patterned xs) :
    xs.length ≤ n + 1 := by
  obtain ⟨x, xs, rfl⟩ := List.exists_cons_of_ne_nil hp.ne_nil
  obtain ⟨rfl, hxs⟩ := List.cons_prefix_cons.mp hx
  have hcons := hp.cons
  rw [List.length_cons]
  obtain ⟨hd, rfl, _⟩ | ⟨hd, ha, rfl, _⟩ | ⟨hd, ha, hq, rfl, _⟩ |
    ⟨hd, ha, hq, spelling, hf, rfl⟩ := munch_cases h
  · rw [if_pos hd] at hcons
    exact Nat.succ_le_succ (length_le_takeWhile hxs hcons)
  · rw [if_neg hd, if_pos ha] at hcons
    exact Nat.succ_le_succ (length_le_takeWhile hxs hcons)
  · rw [if_neg hd, if_neg ha, if_pos hq] at hcons
    obtain ⟨body, rfl, hb⟩ := hcons
    have hle := length_le_takeWhile ((List.prefix_append ..).trans hxs) hb
    rw [List.length_append, List.length_singleton]
    omega
  · rw [if_neg hd, if_neg ha, if_neg hq] at hcons
    obtain ⟨k', hs⟩ := hcons
    have hle := symbols_longest hf hx hs
    have hpos := List.length_pos_iff.mpr (symbols_ne_nil _ (List.mem_of_find?_eq_some hf))
    simp only [List.length_cons] at hle hpos
    omega

end Token

/-! ## Lines -/

theorem count_newline_of_all {p : Char → Bool} {cs : List Char} (hp : p '\n' = false)
    (h : ∀ c ∈ cs, p c = true) : cs.count '\n' = 0 := by
  refine List.count_eq_zero.mpr fun hm => ?_
  have := h _ hm
  rw [hp] at this
  cases this

/-- A newline stands in no token but its own. -/
theorem Spells.count_newline {cs : List Char} {k : TokenKind} (h : Spells cs k) :
    cs.count '\n' = if k = .newLine then 1 else 0 := by
  cases h with
  | number _ hd _ => exact count_newline_of_all rfl hd
  | @word c cs ha hw =>
    have hc : c ≠ '\n' := by
      rintro rfl
      cases ha
    have hk : TokenKind.ofWord (String.ofList (c :: cs)) ≠ .newLine := by
      rcases TokenKind.ofWord_cases (String.ofList (c :: cs)) with
        ⟨b, hb⟩ | hg | ⟨c, _, hc⟩ | ⟨q, _, hq⟩ | hn
      · rw [hb]; simp
      · rw [hg]; simp
      · rw [hc]; simp
      · rw [hq]; simp
      · rw [hn]; simp
    rw [if_neg hk, List.count_cons_of_ne hc]
    exact count_newline_of_all rfl hw
  | @text cs ht =>
    have hcs : cs.count '\n' = 0 := count_newline_of_all rfl ht
    simp [hcs]
  | symbol hs =>
    have hall : ∀ p ∈ TokenKind.symbols, p.1.count '\n' = if p.2 = .newLine then 1 else 0 := by
      decide
    exact hall _ hs

namespace Token

theorem lineAfter_eq {cs : List Char} {k : TokenKind} (h : Spells cs k) (line : Nat) :
    lineAfter k line = line + cs.count '\n' := by
  rw [h.count_newline, lineAfter]
  split <;> rfl

/-! ## Scanning -/

theorem scanFrom_drop (cs : List Char) :
    ∀ line taken, scanFrom line taken cs = scanFrom line 0 (cs.drop taken) := by
  induction cs with
  | nil => intro line taken; rw [List.drop_nil]; rfl
  | cons c cs ih =>
    intro line taken
    cases taken with
    | zero => rfl
    | succ k => exact ih line k

theorem scanFrom_dropWhile (line : Nat) (cs : List Char) :
    scanFrom line 0 cs = scanFrom line 0 (cs.dropWhile isBlank) := by
  induction cs with
  | nil => rfl
  | cons c cs ih =>
    by_cases hb : isBlank c = true
    · rw [List.dropWhile_cons_of_pos hb, ← ih, scanFrom, if_pos hb]
    · rw [List.dropWhile_cons_of_neg hb]

theorem scanFrom_cons {c : Char} {cs : List Char} (hb : ¬ isBlank c = true) (line : Nat) :
    scanFrom line 0 (c :: cs) =
      match munch c cs with
      | .error f => .error ⟨line, .scan f⟩
      | .ok (k, n) =>
        match scanFrom (lineAfter k line) 0 (cs.drop n) with
        | .error d => .error d
        | .ok ts => .ok (⟨k, String.ofList (c :: cs.take n), line⟩ :: ts) := by
  rw [scanFrom, if_neg hb]
  cases munch c cs with
  | error f => rfl
  | ok m =>
    obtain ⟨k, n⟩ := m
    dsimp only
    rewrite [scanFrom_drop cs]
    rfl

theorem scanFrom_cons_ok {c : Char} {cs : List Char} (hb : ¬ isBlank c = true) {line : Nat}
    {ts : List Token} (h : scanFrom line 0 (c :: cs) = .ok ts) :
    ∃ k n ts', munch c cs = .ok (k, n) ∧ scanFrom (lineAfter k line) 0 (cs.drop n) = .ok ts' ∧
      ts = ⟨k, String.ofList (c :: cs.take n), line⟩ :: ts' := by
  rw [scanFrom_cons hb] at h
  split at h
  · cases h
  · rename_i k n hm
    split at h
    · cases h
    · rename_i ts' hts
      cases h
      exact ⟨k, n, ts', hm, hts, rfl⟩

end Token

/-! ## The partition -/

/-- A token and the blanks in front of it. -/
structure Piece where
  gap : List Char
  token : Token

def Piece.chars (x : Piece) : List Char := x.gap ++ x.token.lexeme.toList

/-- A piece of a text that starts on `line`, between what stands before and after it. -/
structure Piece.Placed (line : Nat) (before after : List Char) (x : Piece) : Prop where
  blank : ∀ c ∈ x.gap, isBlank c = true
  determined : x.token.Determined
  line_eq : x.token.line = line + (before ++ x.gap).count '\n'
  longest : ∀ xs, xs <+: x.token.lexeme.toList ++ after → Patterned xs →
    xs.length ≤ x.token.lexeme.toList.length

/-- A text that starts on `line`, cut into pieces and the blanks behind them. -/
structure Partition (line : Nat) (cs : List Char) (pieces : List Piece) (rest : List Char) :
    Prop where
  lossless : cs = pieces.flatMap Piece.chars ++ rest
  blank : ∀ c ∈ rest, isBlank c = true
  placed : ∀ before x after, pieces = before ++ x :: after →
    x.Placed line (before.flatMap Piece.chars) (after.flatMap Piece.chars ++ rest)

theorem Partition.cons {line : Nat} {gap cs rest : List Char} {t : Token} {pieces : List Piece}
    (hgap : ∀ c ∈ gap, isBlank c = true) (ht : t.Spelled) (hline : t.line = line)
    (hlong : ∀ xs, xs <+: t.lexeme.toList ++ cs → Patterned xs →
      xs.length ≤ t.lexeme.toList.length)
    (h : Partition (line + t.lexeme.toList.count '\n') cs pieces rest) :
    Partition line (gap ++ (t.lexeme.toList ++ cs)) (⟨gap, t⟩ :: pieces) rest := by
  have hcount : gap.count '\n' = 0 := count_newline_of_all rfl hgap
  refine ⟨?_, h.blank, ?_⟩
  · rw [List.flatMap_cons, Piece.chars, List.append_assoc, List.append_assoc, ← h.lossless]
  · intro before x after hx
    cases before with
    | nil =>
      obtain ⟨rfl, rfl⟩ := List.cons.inj hx
      refine ⟨hgap, ht.determined, ?_, ?_⟩
      · simp [hline, hcount]
      · rw [← h.lossless]
        exact hlong
    | cons y before =>
      obtain ⟨rfl, hpieces⟩ := List.cons.inj hx
      obtain ⟨hb, hd, hl, hm⟩ := h.placed before x after hpieces
      refine ⟨hb, hd, ?_, hm⟩
      rw [hl, List.flatMap_cons, Piece.chars]
      simp only [List.count_append, hcount]
      omega

namespace Token

/-- The pieces are cut off from the left, one token and the blanks before it at a time. -/
theorem scanFrom_partition (cs : List Char) :
    ∀ {line : Nat} {ts : List Token}, scanFrom line 0 cs = .ok ts →
      ∃ pieces rest, Partition line cs pieces rest ∧
        ts = pieces.map Piece.token ++ [⟨.endOfInput, "", line + cs.count '\n'⟩] := by
  induction hlen : cs.length using Nat.strongRecOn generalizing cs with
  | _ len ih =>
    intro line ts h
    subst hlen
    have hgap : ∀ c ∈ cs.takeWhile isBlank, isBlank c = true := fun c => of_mem_takeWhile
    have hcount := count_newline_of_all rfl hgap
    have hsplit : cs.takeWhile isBlank ++ cs.dropWhile isBlank = cs :=
      List.takeWhile_append_dropWhile
    rw [scanFrom_dropWhile] at h
    cases hcs : cs.dropWhile isBlank with
    | nil =>
      rw [hcs, List.append_nil] at hsplit
      rw [hcs] at h
      cases h
      rw [hsplit] at hgap hcount
      refine ⟨[], cs, ⟨rfl, hgap, ?_⟩, by simp [hcount]⟩
      intro before x after hx
      simp at hx
    | cons c rest =>
      have hb : ¬ isBlank c = true := by
        have := List.head_dropWhile_not isBlank (l := cs) (by simp [hcs])
        simpa [hcs] using this
      rw [hcs] at h hsplit
      obtain ⟨k, n, ts', hm, hts, rfl⟩ := scanFrom_cons_ok hb h
      have hs : Spells (c :: rest.take n) k := spells_of_munch hm
      rw [lineAfter_eq hs] at hts
      have hlen : (rest.drop n).length < cs.length := by
        rw [← hsplit, List.length_append, List.length_cons, List.length_drop]
        omega
      obtain ⟨pieces, last, hp, rfl⟩ := ih _ hlen (rest.drop n) rfl hts
      let t : Token := ⟨k, String.ofList (c :: rest.take n), line⟩
      have hlex : t.lexeme.toList = c :: rest.take n := String.toList_ofList
      have hcat : t.lexeme.toList ++ rest.drop n = c :: rest := by
        rw [hlex, List.cons_append, List.take_append_drop]
      refine ⟨⟨cs.takeWhile isBlank, t⟩ :: pieces, last, ?_, ?_⟩
      · have hpart :
            Partition line (cs.takeWhile isBlank ++ (t.lexeme.toList ++ rest.drop n)) _ last :=
          Partition.cons (t := t) hgap (by rwa [Spelled, hlex]) rfl ?_ (by rwa [hlex])
        · rwa [hcat, hsplit] at hpart
        · intro xs hx hpat
          rw [hcat] at hx
          have h₁ := munch_longest hm hx hpat
          have h₂ := hx.length_le
          simp only [hlex, List.length_cons, List.length_take] at h₁ h₂ ⊢
          omega
      · rw [List.map_cons, List.cons_append, ← hsplit, ← hcat, hlex]
        simp only [List.count_append, hcount, Nat.zero_add, Nat.add_assoc]
        rfl

/-- A scan that succeeds cuts the whole text into pieces and ends them with one mark. -/
theorem scan_partition {text : String} {ts : List Token} (h : scan text = .ok ts) :
    ∃ pieces rest, Partition 1 text.toList pieces rest ∧
      ts = pieces.map Piece.token ++ [⟨.endOfInput, "", 1 + text.toList.count '\n'⟩] ∧
      ∀ x ∈ pieces, x.token.kind ≠ .endOfInput := by
  obtain ⟨pieces, rest, hp, hts⟩ := scanFrom_partition text.toList h
  refine ⟨pieces, rest, hp, hts, fun x hx => ?_⟩
  obtain ⟨before, after, rfl⟩ := List.append_of_mem hx
  exact (hp.placed before x after rfl).determined.spelled.ne_endOfInput

/-- Operators that extend each other, a word that extends a keyword, and digits that end a word. -/
theorem scan_partition_two_lines :
    ∃ ts pieces rest, scan "x1<- 007**2 \n\tSpawned <=\"Red\" Spawn " = .ok ts ∧
      ts.map Token.lexeme = ["x1", "<-", "007", "**", "2", "\n", "Spawned", "<=", "\"Red\"",
        "Spawn", ""] ∧
      ts.map Token.line = [1, 1, 1, 1, 1, 1, 2, 2, 2, 2, 2] ∧
      Partition 1 "x1<- 007**2 \n\tSpawned <=\"Red\" Spawn ".toList pieces rest ∧
      ts = pieces.map Piece.token ++ [⟨.endOfInput, "", 2⟩] := by
  let ts : List Token :=
    [⟨.name "x1", "x1", 1⟩, ⟨.arrow, "<-", 1⟩, ⟨.number 7, "007", 1⟩,
      ⟨.operator (.arith .pow), "**", 1⟩, ⟨.number 2, "2", 1⟩, ⟨.newLine, "\n", 1⟩,
      ⟨.name "Spawned", "Spawned", 2⟩, ⟨.operator (.order .le), "<=", 2⟩,
      ⟨.text "Red", "\"Red\"", 2⟩, ⟨.command .spawn, "Spawn", 2⟩, ⟨.endOfInput, "", 2⟩]
  have hscan : scan "x1<- 007**2 \n\tSpawned <=\"Red\" Spawn " = .ok ts := rfl
  obtain ⟨pieces, rest, hp, hts, _⟩ := scan_partition hscan
  exact ⟨ts, pieces, rest, hscan, rfl, rfl, hp, hts⟩

end Token

end Easel
