import Easel.Proofs.Munch
import Easel.Source

/-!
# Easel.Proofs.Lines

Where the pieces of a text can be seen. A text has one line more than newlines, and what stands
behind `n` of them and has no newline itself is part of line `n + 1` (`Source.shows_of_eq`).

* `Source.Shows`: a line of the text has these characters in it.
* `Token.shows_of_scan`: a token is seen on its line.
* `Token.shows_of_scan_error`: and so is what a scan does not get past.
-/

namespace Easel

/-! ## Lines of a text -/

namespace Source

variable {cs mid after : List Char}

theorem exists_lines_eq_cons (cs : List Char) : ∃ l ls, lines cs = l :: ls := by
  cases cs with
  | nil => exact ⟨[], [], rfl⟩
  | cons c cs =>
    rw [lines]
    split
    · exact ⟨_, _, rfl⟩
    · split
      · exact ⟨_, _, rfl⟩
      · exact ⟨_, _, rfl⟩

theorem lines_newline (cs : List Char) : lines ('\n' :: cs) = [] :: lines cs := by
  rw [lines, if_pos rfl]

theorem lines_cons {c : Char} {l : List Char} {ls : List (List Char)} (hc : c ≠ '\n')
    (h : lines cs = l :: ls) : lines (c :: cs) = (c :: l) :: ls := by
  rw [lines, if_neg hc, h]

theorem length_lines (cs : List Char) : (lines cs).length = cs.count '\n' + 1 := by
  induction cs with
  | nil => rfl
  | cons c cs ih =>
    by_cases hc : c = '\n'
    · subst hc
      rw [lines_newline, List.length_cons, ih, List.count_cons_self]
    · obtain ⟨l, ls, h⟩ := exists_lines_eq_cons cs
      rw [h] at ih
      rw [lines_cons hc h, List.count_cons_of_ne hc, ← ih, List.length_cons, List.length_cons]

theorem newline_not_mem_of_mem_lines {l : List Char} (h : l ∈ lines cs) : '\n' ∉ l := by
  induction cs generalizing l with
  | nil =>
    have hl : l = [] := by simpa [lines] using h
    simp [hl]
  | cons c cs ih =>
    by_cases hc : c = '\n'
    · subst hc
      rw [lines_newline] at h
      rcases List.mem_cons.mp h with rfl | h
      · simp
      · exact ih h
    · obtain ⟨l₀, ls, h₀⟩ := exists_lines_eq_cons cs
      rw [lines_cons hc h₀] at h
      rcases List.mem_cons.mp h with rfl | h
      · have hl₀ : '\n' ∉ l₀ := ih (by simp [h₀])
        simp [hl₀, Ne.symm hc]
      · exact ih (by simp [h₀, h])

theorem lines_append {l : List Char} {ls : List (List Char)} (hm : '\n' ∉ mid)
    (h : lines after = l :: ls) : lines (mid ++ after) = (mid ++ l) :: ls := by
  induction mid with
  | nil => exact h
  | cons c mid ih =>
    have hc : c ≠ '\n' := fun e => hm (by simp [e])
    have hmid : '\n' ∉ mid := fun e => hm (by simp [e])
    exact lines_cons hc (ih hmid)

/-- The line of a piece without newlines is told by the newlines before it. -/
theorem exists_line_of_append (before after : List Char) (hm : '\n' ∉ mid) :
    ∃ l, (lines (before ++ (mid ++ after)))[before.count '\n']? = some l ∧ mid <:+: l := by
  induction before with
  | nil =>
    obtain ⟨l, ls, h⟩ := exists_lines_eq_cons after
    refine ⟨mid ++ l, ?_, (List.prefix_append mid l).isInfix⟩
    rw [List.nil_append, lines_append hm h]
    rfl
  | cons c before ih =>
    obtain ⟨l, hl, hin⟩ := ih
    by_cases hc : c = '\n'
    · subst hc
      refine ⟨l, ?_, hin⟩
      rw [List.cons_append, lines_newline, List.count_cons_self, List.getElem?_cons_succ, hl]
    · obtain ⟨l₀, ls, h₀⟩ := exists_lines_eq_cons (before ++ (mid ++ after))
      rw [List.cons_append, lines_cons hc h₀, List.count_cons_of_ne hc]
      rw [h₀] at hl
      -- The first line has got one more character, the others are as they were.
      cases hn : before.count '\n' with
      | zero =>
        rw [hn] at hl
        cases hl
        exact ⟨c :: l, rfl, hin.trans (List.suffix_cons c l).isInfix⟩
      | succ n =>
        rw [hn] at hl
        exact ⟨l, hl, hin⟩

theorem trimReturns_append {c : Char} (hc : c ≠ '\r') (xs ys : List Char) :
    trimReturns (xs ++ c :: ys) = xs ++ c :: trimReturns ys := by
  unfold trimReturns
  have hcons : (c :: xs.reverse).dropWhile (· == '\r') = c :: xs.reverse :=
    List.dropWhile_cons_of_neg (by simpa using hc)
  rw [List.reverse_append, List.reverse_cons, List.append_assoc, List.singleton_append,
    List.dropWhile_append, hcons]
  split
  · rename_i he
    simp [List.isEmpty_iff.mp he]
  · simp

theorem infix_trimReturns {l : List Char} (h : mid <:+: l) (hr : mid.getLast? ≠ some '\r') :
    mid <:+: trimReturns l := by
  obtain ⟨xs, ys, rfl⟩ := h
  rcases List.eq_nil_or_concat mid with rfl | ⟨m, c, rfl⟩
  · exact List.nil_infix
  · have hc : c ≠ '\r' := by simpa using hr
    refine ⟨xs, trimReturns ys, ?_⟩
    have := trimReturns_append hc (xs ++ m) ys
    simpa using this.symm

/-- Line `n` of the text has the characters `s` in it, one after the other. -/
def Shows (text : String) (n : Nat) (s : List Char) : Prop :=
  ∃ l, lineText? text n = some l ∧ s <:+: l.toList

theorem shows_of_eq {text : String} {before : List Char}
    (h : text.toList = before ++ (mid ++ after)) (hn : '\n' ∉ mid)
    (hr : mid.getLast? ≠ some '\r') : Shows text (1 + before.count '\n') mid := by
  obtain ⟨l, hl, hin⟩ := exists_line_of_append before after hn
  refine ⟨String.ofList (trimReturns l), ?_, ?_⟩
  · rw [Nat.add_comm, lineText?, h, hl]
    rfl
  · rw [String.toList_ofList]
    exact infix_trimReturns hin hr

theorem Shows.line_le {text : String} {n : Nat} {s : List Char} (h : Shows text n s) :
    1 ≤ n ∧ n ≤ 1 + text.toList.count '\n' := by
  obtain ⟨l, hl, _⟩ := h
  cases n with
  | zero => cases hl
  | succ n =>
    obtain ⟨l', hl', _⟩ := Option.map_eq_some_iff.mp hl
    obtain ⟨hn, _⟩ := List.getElem?_eq_some_iff.mp hl'
    rw [length_lines] at hn
    omega

theorem newline_not_mem_of_lineText? {text l : String} {n : Nat} (h : lineText? text n = some l) :
    '\n' ∉ l.toList := by
  cases n with
  | zero => cases h
  | succ n =>
    obtain ⟨l', hl', rfl⟩ := Option.map_eq_some_iff.mp h
    have hmem := newline_not_mem_of_mem_lines (List.mem_of_getElem? hl')
    rw [String.toList_ofList, trimReturns, List.mem_reverse]
    intro hd
    exact hmem (List.mem_reverse.mp ((List.dropWhile_sublist _).subset hd))

end Source

/-! ## Tokens -/

/-- What a fault of the scan quotes from the text. -/
def ScanFault.quoted : ScanFault → List Char
  | .unterminatedString => []
  | .unrecognizedCharacter c => [c]
  | .numberOutOfRange digits => digits.toList

theorem Spells.getLast?_ne {cs : List Char} {k : TokenKind} (h : Spells cs k) :
    cs.getLast? ≠ some '\r' := by
  cases h with
  | number _ hd _ =>
    intro hr
    exact absurd (hd _ (List.mem_of_getLast? hr)) (by decide)
  | @word c cs ha hw =>
    intro hr
    rcases List.mem_cons.mp (List.mem_of_getLast? hr) with rfl | hm
    · exact absurd ha (by decide)
    · exact absurd (hw _ hm) (by decide)
  | text => simp [List.getLast?_cons]
  | symbol hs =>
    have hall : ∀ p ∈ TokenKind.symbols, p.1.getLast? ≠ some '\r' := by decide
    exact hall _ hs

namespace Token

/-- What can be seen of a token on its line: nothing, if it is the newline that ends the line. -/
def visible (t : Token) : List Char := if t.kind = .newLine then [] else t.lexeme.toList

theorem Spelled.newline_not_mem {t : Token} (h : t.Spelled) : '\n' ∉ t.visible := by
  unfold visible
  split
  · simp
  · rename_i hk
    exact List.count_eq_zero.mp (by rw [Spells.count_newline h, if_neg hk])

theorem Spelled.getLast?_ne {t : Token} (h : t.Spelled) : t.visible.getLast? ≠ some '\r' := by
  unfold visible
  split
  · simp
  · exact Spells.getLast?_ne h

/-- Every token is seen on its line. -/
theorem shows_of_scan {text : String} {ts : List Token} (h : scan text = .ok ts) {t : Token}
    (ht : t ∈ ts) : Source.Shows text t.line t.visible := by
  obtain ⟨pieces, rest, hp, rfl, _⟩ := scan_partition h
  rcases List.mem_append.mp ht with ht | ht
  · obtain ⟨x, hx, rfl⟩ := List.mem_map.mp ht
    obtain ⟨before, after, rfl⟩ := List.append_of_mem hx
    have hplaced := hp.placed before x after rfl
    have hs : x.token.Spelled := hplaced.determined.spelled
    have hpre : x.token.visible <+: x.token.lexeme.toList := by
      unfold visible
      split
      · exact List.nil_prefix
      · exact List.prefix_rfl
    obtain ⟨more, hmore⟩ := hpre
    have htext : text.toList = before.flatMap Piece.chars ++ x.gap ++
        (x.token.visible ++ (more ++ (after.flatMap Piece.chars ++ rest))) := by
      rw [hp.lossless, ← List.append_assoc x.token.visible, hmore]
      simp [Piece.chars]
    rw [hplaced.line_eq]
    exact Source.shows_of_eq htext hs.newline_not_mem hs.getLast?_ne
  · obtain rfl : t = ⟨.endOfInput, "", 1 + text.toList.count '\n'⟩ := by simpa using ht
    have hnil : visible ⟨.endOfInput, "", 1 + text.toList.count '\n'⟩ = [] := rfl
    have htext : text.toList = text.toList ++ ([] ++ []) := by rw [List.nil_append, List.append_nil]
    rw [hnil]
    exact Source.shows_of_eq htext (by simp) (by simp)

/-- The lines of tokens that follow each other: behind a newline a new line starts, and nowhere
else. -/
def Lined : Nat → List Token → Prop
  | _, [] => True
  | n, t :: ts => t.line = n ∧ Lined (lineAfter t.kind n) ts

theorem lined_of_scanFrom {cs : List Char} :
    ∀ {line taken : Nat} {ts : List Token}, scanFrom line taken cs = .ok ts → Lined line ts := by
  induction cs with
  | nil =>
    intro line taken ts h
    cases h
    exact ⟨rfl, trivial⟩
  | cons c cs ih =>
    intro line taken ts h
    cases taken with
    | succ k => exact ih (by simpa only [scanFrom] using h)
    | zero =>
      simp only [scanFrom] at h
      split at h
      · exact ih h
      · split at h
        · cases h
        · split at h
          · cases h
          · rename_i hts
            cases h
            exact ⟨rfl, ih hts⟩

/-! ## What a scan does not get past -/

/-- Why `munch` finds nothing: the number is out of range, the quote is not closed on its line, or
no symbol starts here. -/
theorem munch_error_cases {c : Char} {cs : List Char} {f : ScanFault} (h : munch c cs = .error f) :
    (c.isDigit = true ∧ Number.ofInt? (decimalValue (c :: cs.takeWhile Char.isDigit)) = none ∧
      f = .numberOutOfRange (String.ofList (c :: cs.takeWhile Char.isDigit))) ∨
    (c = '"' ∧ cs[(cs.takeWhile isQuotable).length]? ≠ some '"' ∧ f = .unterminatedString) ∨
    (¬ c.isDigit = true ∧ ¬ c.isAlpha = true ∧ c ≠ '"' ∧
      TokenKind.symbols.find? (fun s => s.1.isPrefixOf (c :: cs)) = none ∧
      f = .unrecognizedCharacter c) := by
  unfold munch at h
  split at h
  · rename_i hd
    simp only at h
    split at h
    · cases h
    · rename_i hv
      cases h
      exact .inl ⟨hd, hv, rfl⟩
  · rename_i hd
    split at h
    · cases h
    · rename_i ha
      split at h
      · rename_i hq
        simp only at h
        split at h
        · cases h
        · rename_i hb
          cases h
          exact .inr (.inl ⟨hq, hb, rfl⟩)
      · rename_i hq
        split at h
        · cases h
        · rename_i hf
          cases h
          exact .inr (.inr ⟨hd, ha, hq, hf, rfl⟩)

/-- A scan that fails has come to a character, which is no blank, with which no token starts. -/
theorem scanFrom_error (cs : List Char) :
    ∀ {line : Nat} {d : Diagnostic}, scanFrom line 0 cs = .error d →
      ∃ before c after f, cs = before ++ c :: after ∧ isBlank c = false ∧
        munch c after = .error f ∧ d = ⟨line + before.count '\n', .scan f⟩ := by
  induction hlen : cs.length using Nat.strongRecOn generalizing cs with
  | _ len ih =>
    intro line d h
    subst hlen
    cases cs with
    | nil => cases h
    | cons c cs =>
      by_cases hb : isBlank c = true
      · have hc : c ≠ '\n' := by rintro rfl; cases hb
        rw [scanFrom, if_pos hb] at h
        obtain ⟨before, c', after, f, rfl, hb', hm, rfl⟩ := ih _ (by simp) cs rfl h
        exact ⟨c :: before, c', after, f, rfl, hb', hm, by rw [List.count_cons_of_ne hc]⟩
      · rw [scanFrom_cons hb] at h
        split at h
        · rename_i f hm
          cases h
          exact ⟨[], c, cs, f, rfl, by simpa using hb, hm, rfl⟩
        · rename_i k n hm
          rw [lineAfter_eq (spells_of_munch hm)] at h
          split at h
          · rename_i d' hd
            cases h
            -- The token is behind the scan, and its newline, if it is one, is counted.
            have hlt : (cs.drop n).length < (c :: cs).length := by
              rw [List.length_cons, List.length_drop]
              omega
            obtain ⟨before, c', after, f, hcs, hb', hm', rfl⟩ := ih _ hlt (cs.drop n) rfl hd
            refine ⟨c :: cs.take n ++ before, c', after, f, ?_, hb', hm', ?_⟩
            · rw [List.append_assoc, ← hcs, List.cons_append, List.take_append_drop]
            · rw [List.count_append, Nat.add_assoc]
          · cases h

/-- The scan fails at something that can be seen on the line of the fault. -/
theorem shows_of_scan_error {text : String} {d : Diagnostic} (h : scan text = .error d) :
    ∃ f, d.fault = .scan f ∧ '\n' ∉ f.quoted ∧ Source.Shows text d.line f.quoted := by
  obtain ⟨before, c, after, f, htext, hb, hm, rfl⟩ := scanFrom_error text.toList h
  have hpre : f.quoted <+: c :: after ∧ '\n' ∉ f.quoted ∧ f.quoted.getLast? ≠ some '\r' := by
    rcases munch_error_cases hm with ⟨hd, _, rfl⟩ | ⟨_, _, rfl⟩ | ⟨_, _, _, hf, rfl⟩
    · have hds : ∀ d ∈ c :: after.takeWhile Char.isDigit, d.isDigit = true :=
        of_mem_cons_takeWhile hd
      rw [ScanFault.quoted, String.toList_ofList]
      refine ⟨?_, fun hn => absurd (hds _ hn) (by decide), fun hr => ?_⟩
      · exact List.cons_prefix_cons.mpr ⟨rfl, List.takeWhile_prefix _⟩
      · exact absurd (hds _ (List.mem_of_getLast? hr)) (by decide)
    · exact ⟨List.nil_prefix, by simp [ScanFault.quoted], by simp [ScanFault.quoted]⟩
    · have hr : c ≠ '\r' := by rintro rfl; cases hb
      have hc : c ≠ '\n' := by
        rintro rfl
        have hnone := List.find?_eq_none.mp hf (['\n'], .newLine) (by decide)
        simp at hnone
      simp [ScanFault.quoted, hr, Ne.symm hc]
  obtain ⟨⟨more, hmore⟩, hn, hr⟩ := hpre
  exact ⟨f, rfl, hn, Source.shows_of_eq (htext.trans (by rw [hmore])) hn hr⟩

end Token
end Easel
