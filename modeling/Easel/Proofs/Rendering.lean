import Easel.Proofs.ScanFaults

/-!
# Easel.Proofs.Rendering

Tokens can be written down and read back. `Token.render` puts a blank between each two of them, and
the scan of the text gives them again, on the lines that their newlines make (`Token.scan_render`).

* `Spells.longest_of_separated`: a blank ends every token, for no token could go on behind it; the
  blanks inside a text are no exception, as its second quote has come before.
* `Token.scanFrom_render`: so the scan goes from token to token, from any line on.
-/

namespace Easel

variable {c : Char} {xs zs rest : List Char} {k : TokenKind}

/-! ## Blanks end tokens -/

theorem isDigit_of_isBlank (h : isBlank c = true) : c.isDigit = false := by
  rcases isBlank_iff.mp h with rfl | rfl | rfl | rfl <;> rfl

theorem isWordChar_of_isBlank (h : isBlank c = true) : isWordChar c = false := by
  rcases isBlank_iff.mp h with rfl | rfl | rfl | rfl <;> rfl

/-- A token and a blank behind it are not the start of a longer token. -/
theorem Spells.not_patterned_append_blank (hs : Spells xs k) (hc : isBlank c = true) :
    ¬ Patterned (xs ++ c :: zs) := by
  intro hp
  obtain ⟨x, xs, rfl⟩ := List.exists_cons_of_ne_nil hs.ne_nil
  have hcons := hp.cons
  rw [spells_cons_iff] at hs
  split at hcons
  · have hd := hcons c (by simp)
    rw [isDigit_of_isBlank hc] at hd
    cases hd
  · rename_i hd
    split at hcons
    · have hw := hcons c (by simp)
      rw [isWordChar_of_isBlank hc] at hw
      cases hw
    · rename_i ha
      rw [if_neg hd, if_neg ha] at hs
      split at hcons
      · rename_i hq
        rw [if_pos hq] at hs
        obtain ⟨body, rfl, _, _⟩ := hs
        obtain ⟨body', heq, hb'⟩ := hcons
        -- The second quote of the text would stand inside the longer one.
        have hbody : body' = body ++ '"' :: (c :: zs).dropLast := by
          have := congrArg List.dropLast heq
          simpa using this.symm
        have hquote := hb' '"' (by simp [hbody])
        cases hquote
      · obtain ⟨k', hk'⟩ := hcons
        have hall : ∀ p ∈ TokenKind.symbols, ∀ d ∈ p.1, isBlank d = false := by
          simp [TokenKind.symbols, isBlank]
        have hb := hall _ hk' c (by simp)
        rw [hc] at hb
        cases hb

/-- The text is over or goes on with a blank. -/
def Separated (rest : List Char) : Prop := ∀ c ∈ rest.head?, isBlank c = true

theorem Spells.longest_of_separated (hs : Spells xs k) (hr : Separated rest) :
    ∀ ys, ys <+: xs ++ rest → Patterned ys → ys.length ≤ xs.length := by
  intro ys hy hp
  refine Nat.le_of_not_lt fun hlt => ?_
  obtain ⟨zs, rfl⟩ : xs <+: ys :=
    List.prefix_of_prefix_length_le (List.prefix_append xs rest) hy (Nat.le_of_lt hlt)
  have hz : zs <+: rest := (List.prefix_append_right_inj xs).mp hy
  cases zs with
  | nil => simp at hlt
  | cons c zs =>
    obtain ⟨more, rfl⟩ := hz
    exact hs.not_patterned_append_blank (hr c (by simp)) hp

/-! ## Rendering -/

namespace Token

/-- The tokens as a text, with a blank between each two. -/
def render (ts : List Token) : String := " ".intercalate (ts.map Token.lexeme)

/-- How many newlines there are among the tokens. -/
def newLines (ts : List Token) : Nat := ts.countP fun t => t.kind = .newLine

/-- The tokens of a text that starts on `line`: each on the line that the newlines before it lead
to, and one end mark behind them. -/
def numbered (line : Nat) (ts : List Token) : List Token :=
  (ts.mapIdx fun i t => { t with line := line + newLines (ts.take i) }) ++
    [⟨.endOfInput, "", line + newLines ts⟩]

theorem add_newLines_cons (line : Nat) (t : Token) (ts : List Token) :
    line + newLines (t :: ts) = lineAfter t.kind line + newLines ts := by
  unfold newLines lineAfter
  by_cases h : t.kind = .newLine
  · rw [List.countP_cons_of_pos (by simpa using h), if_pos h]
    omega
  · rw [List.countP_cons_of_neg (by simpa using h), if_neg h]

theorem numbered_cons (line : Nat) (t : Token) (ts : List Token) :
    numbered line (t :: ts) = { t with line := line } :: numbered (lineAfter t.kind line) ts := by
  simp only [numbered, List.mapIdx_cons, List.take_succ_cons, add_newLines_cons, List.cons_append]
  rfl

/-- What follows the first token in a rendered text. -/
theorem exists_render_cons (t : Token) (ts : List Token) :
    ∃ rest, (render (t :: ts)).toList = t.lexeme.toList ++ rest ∧ Separated rest ∧
      ∀ line, scanFrom line 0 rest = scanFrom line 0 (render ts).toList := by
  cases ts with
  | nil => exact ⟨[], by simp [render], by simp [Separated], fun line => rfl⟩
  | cons u ts =>
    refine ⟨' ' :: (render (u :: ts)).toList, ?_, ?_, fun line => rfl⟩
    · simp [render, String.intercalate_cons_cons]
    · simp [Separated, isBlank]

theorem scanFrom_render {ts : List Token} (h : ∀ t ∈ ts, t.Spelled) :
    ∀ line, scanFrom line 0 (render ts).toList = .ok (numbered line ts) := by
  induction ts with
  | nil => intro line; rfl
  | cons t ts ih =>
    intro line
    rw [List.forall_mem_cons] at h
    obtain ⟨ht, hts⟩ := h
    have hs : Spells t.lexeme.toList t.kind := ht
    obtain ⟨rest, hcons, hsep, hrest⟩ := exists_render_cons t ts
    rw [hcons, scanFrom_token hs (hs.longest_of_separated hsep), hrest, ih hts, numbered_cons,
      String.ofList_toList]
    rfl

/-- Spelled tokens that are rendered are scanned as they were, each on the line that the newlines
before it lead to. -/
theorem scan_render {ts : List Token} (h : ∀ t ∈ ts, t.Spelled) :
    scan (render ts) = .ok ((ts.mapIdx fun i t => { t with line := 1 + newLines (ts.take i) }) ++
      [⟨.endOfInput, "", 1 + newLines ts⟩]) :=
  scanFrom_render h 1

/-- What would run together without a blank: operators that make another one, a number and a name; a
name that starts like a keyword; and a text with blanks of its own. -/
theorem scan_render_runs_apart :
    ∃ ts : List Token, (∀ t ∈ ts, t.Spelled) ∧ render ts = "< - 007 Spawned \n \"a  b\" Spawn" ∧
      scan (render ts) = .ok
        [⟨.operator (.order .lt), "<", 1⟩, ⟨.operator (.arith .sub), "-", 1⟩,
          ⟨.number 7, "007", 1⟩, ⟨.name "Spawned", "Spawned", 1⟩, ⟨.newLine, "\n", 1⟩,
          ⟨.text "a  b", "\"a  b\"", 2⟩, ⟨.command .spawn, "Spawn", 2⟩, ⟨.endOfInput, "", 2⟩] := by
  let ts : List Token :=
    [⟨.operator (.order .lt), "<", 0⟩, ⟨.operator (.arith .sub), "-", 0⟩, ⟨.number 7, "007", 0⟩,
      ⟨.name "Spawned", "Spawned", 0⟩, ⟨.newLine, "\n", 0⟩, ⟨.text "a  b", "\"a  b\"", 0⟩,
      ⟨.command .spawn, "Spawn", 0⟩]
  have hnumber : Spells "007".toList (.number 7) :=
    .number (by decide) (List.all_eq_true.mp rfl) rfl
  have hname : Spells ('S' :: "pawned".toList) (.ofWord (String.ofList ('S' :: "pawned".toList))) :=
    .word rfl (List.all_eq_true.mp rfl)
  have htext : Spells ('"' :: ("a  b".toList ++ ['"'])) (.text (String.ofList "a  b".toList)) :=
    .text (List.all_eq_true.mp rfl)
  have hkeyword : Spells ('S' :: "pawn".toList) (.ofWord (String.ofList ('S' :: "pawn".toList))) :=
    .word rfl (List.all_eq_true.mp rfl)
  have hts : ∀ t ∈ ts, t.Spelled := by
    simp only [ts, List.forall_mem_cons]
    exact ⟨.symbol (by decide), .symbol (by decide), hnumber, hname, .symbol (by decide), htext,
      hkeyword, by simp⟩
  exact ⟨ts, hts, rfl, scan_render hts⟩

end Token
end Easel
