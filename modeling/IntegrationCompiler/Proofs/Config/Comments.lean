import IntegrationCompiler.Config.Comments
import IntegrationCompiler.Proofs.Json.Spaced

/-!
# Comments are invisible

A JSON text with comments between its tokens says what it says without them.

* `Comment` — what is a comment in front of a text;
* `stripFrom_token` — outside comments a token stays as it is, whatever is in a string;
* `stripFrom_comment` — of a comment no more is left than a line break;
* `stripped_spaced` — so stripping leaves the text, with more blanks between its tokens;
* `comments_invisible` — and it is read as the same value.

Any text at all, JSON or not, is stripped for good.

* `Commentless` — no comment begins in a text, outside its strings;
* `stripFrom_commentless` — none begins in what stripping leaves;
* `stripFrom_eq_self_iff` — and stripping leaves a text alone exactly if none begins there;
* `stripping_settles` — so a text is stripped only once.
-/

namespace IntegrationCompiler

open Json

/-- The first text is a comment when the second one follows it. A comment up to the end of its line
brings its own line break, or ends at one that is there, or at the end of the text. -/
inductive Comment : List Char → List Char → Prop where
  | block {body rest : List Char} : ¬ ['*', '/'] <:+: body →
    Comment ('/' :: '*' :: body ++ ['*', '/']) rest
  | line {body rest : List Char} : '\n' ∉ body → Comment ('/' :: '/' :: body ++ ['\n']) rest
  | lineBefore {body rest : List Char} : '\n' ∉ body → (∀ c ∈ rest.head?, c = '\n') →
    Comment ('/' :: '/' :: body) rest

/-! ## Tokens -/

theorem stripFrom_plain {c : Char} (hQuote : c ≠ '"') (hSlash : c ≠ '/') (rest : List Char) :
    stripFrom .plain (c :: rest) = c :: stripFrom .plain rest := by
  simp [stripFrom, hSlash]

theorem stripFrom_text {tail : List Char} (h : StringTail tail) (rest : List Char) :
    stripFrom .inText (tail ++ rest) = tail ++ stripFrom .plain rest := by
  induction h with
  | close => simp [stripFrom]
  | plain hQuote hEscape _ ih => simp [stripFrom, hEscape, ih]
  | escape c _ ih => simp [stripFrom, ih]

theorem stripFrom_chars {cs : List Char} (h : ∀ c ∈ cs, c ≠ '"' ∧ c ≠ '/') (rest : List Char) :
    stripFrom .plain (cs ++ rest) = cs ++ stripFrom .plain rest := by
  induction cs with
  | nil => rfl
  | cons c cs ih =>
    rw [List.forall_mem_cons] at h
    rw [List.cons_append, stripFrom_plain h.1.1 h.1.2, ih h.2, List.cons_append]

/-- Outside comments a token stays as it is. -/
theorem stripFrom_token {token text : List Char} (h : Token token text) (rest : List Char) :
    stripFrom .plain (token ++ rest) = token ++ stripFrom .plain rest := by
  cases h with
  | @mark c _ hMark =>
    have hMarks : ['{', '}', '[', ']', ':', ','].all (fun c => c != '"' && c != '/') = true := by
      decide
    have hOther : c ≠ '"' ∧ c ≠ '/' := by simpa using List.all_eq_true.mp hMarks c hMark
    exact stripFrom_chars (List.forall_mem_singleton.mpr hOther) rest
  | string hTail =>
    show '"' :: stripFrom .inText (_ ++ rest) = _
    rw [stripFrom_text hTail, List.cons_append]
  | word _ hChars _ =>
    refine stripFrom_chars (fun c hc => ?_) rest
    have hWord := hChars c hc
    constructor
    all_goals
      rintro rfl
      exact absurd hWord (by decide)

theorem stripFrom_blank {c : Char} (h : isSpace c = true) (rest : List Char) :
    stripFrom .plain (c :: rest) = c :: stripFrom .plain rest := by
  have hOther : c ≠ '"' ∧ c ≠ '/' := by
    constructor
    all_goals
      rintro rfl
      exact absurd h (by decide)
  exact stripFrom_plain hOther.1 hOther.2 rest

/-! ## Comments -/

/-- A comment between stars ends at the first star with a slash behind it. -/
theorem stripFrom_block {body : List Char} (h : ¬ ['*', '/'] <:+: body) (rest : List Char) :
    stripFrom .inBlock (body ++ '*' :: '/' :: rest) = stripFrom .plain rest := by
  induction body with
  | nil => simp [stripFrom]
  | cons c body ih =>
    have hBody : ¬ ['*', '/'] <:+: body :=
      fun hInfix => h (hInfix.trans (List.suffix_cons c body).isInfix)
    rw [← ih hBody]
    cases body with
    | nil => simp [stripFrom]
    | cons d body =>
      -- the first two characters do not end the comment
      have hGoesOn : ¬ (c = '*' ∧ d = '/') := by
        rintro ⟨rfl, rfl⟩
        exact h ⟨[], body, rfl⟩
      by_cases hStar : c = '*'
      · have hSlash : d ≠ '/' := fun hd => hGoesOn ⟨hStar, hd⟩
        simp [stripFrom, hSlash]
      · simp [stripFrom, hStar]

/-- A comment in a line ends with the line, whose break stays. -/
theorem stripFrom_line {body rest : List Char} (h : '\n' ∉ body)
    (hRest : ∀ c ∈ rest.head?, c = '\n') :
    stripFrom .inLine (body ++ rest) = stripFrom .plain rest := by
  induction body with
  | nil =>
    cases rest with
    | nil => rfl
    | cons c rest =>
      obtain rfl := hRest c rfl
      rfl
  | cons c body ih =>
    rw [List.mem_cons, not_or] at h
    have hBreak : c ≠ '\n' := fun hc => h.1 hc.symm
    rw [← ih h.2]
    simp [stripFrom]

/-- Of a comment no more is left than a line break. -/
theorem stripFrom_comment {comment rest : List Char} (h : Comment comment rest) :
    ∃ gap, (∀ c ∈ gap, isSpace c = true) ∧
      stripFrom .plain (comment ++ rest) = gap ++ stripFrom .plain rest := by
  cases h with
  | @block body _ hBody =>
    refine ⟨[], nofun, ?_⟩
    show stripFrom .inBlock ((body ++ ['*', '/']) ++ rest) = stripFrom .plain rest
    rw [List.append_assoc]
    exact stripFrom_block hBody rest
  | @line body _ hBody =>
    refine ⟨['\n'], List.forall_mem_singleton.mpr rfl, ?_⟩
    show stripFrom .inLine ((body ++ ['\n']) ++ rest) = '\n' :: stripFrom .plain rest
    rw [List.append_assoc, stripFrom_line hBody (by rintro _ ⟨rfl⟩; rfl)]
    rfl
  | lineBefore hBody hRest =>
    exact ⟨[], nofun, stripFrom_line hBody hRest⟩

/-! ## Texts -/

/-- What stripping leaves of a text with comments between its tokens is the text, with more blanks
between them. -/
theorem stripped_spaced {text commented : List Char} (h : Interspersed Comment text commented) :
    Spaced text (stripFrom .plain commented) := by
  induction h with
  | nil => exact .nil
  | blank hSpace _ ih =>
    rw [stripFrom_blank hSpace]
    exact .blank hSpace ih
  | token hToken _ ih =>
    rw [stripFrom_token hToken]
    exact .token hToken ih
  | gap hComment _ ih =>
    obtain ⟨gap, hGap, hLeft⟩ := stripFrom_comment hComment
    rw [hLeft]
    exact .gap hGap ih

/-- A text of tokens and blanks holds nothing to strip. -/
theorem stripFrom_tokenized {text : List Char} (h : Tokenized text) :
    stripFrom .plain text = text := by
  suffices hSame : ∀ {text other}, Interspersed (fun _ _ => False) text other →
      stripFrom .plain other = other from hSame h
  intro text other h
  induction h with
  | nil => rfl
  | blank hSpace _ ih => rw [stripFrom_blank hSpace, ih]
  | token hToken _ ih => rw [stripFrom_token hToken, ih]
  | gap hNone _ _ => exact hNone.elim

/-- **Comments are invisible.** A JSON text is made of tokens and blanks. With comments put in
between its tokens, stripping leaves a text that is read as the same value; without them, stripping
leaves the text itself. -/
theorem comments_invisible {text : String} {v : Value} (h : Json.parse text = .ok v) :
    Tokenized text.toList ∧
      (∀ commented : String, Interspersed Comment text.toList commented.toList →
        Json.parse (stripComments commented) = .ok v) ∧
      stripComments text = text := by
  have hDocument := parse_eq_ok_iff.mp h
  have hTokens := tokenized_of_document hDocument
  refine ⟨hTokens, fun commented hCommented => ?_, ?_⟩
  · refine parse_eq_ok_iff.mpr ?_
    rw [stripComments, String.toList_ofList]
    exact document_of_spaced hDocument (stripped_spaced hCommented)
  · rw [stripComments, stripFrom_tokenized hTokens, String.ofList_toList]

/-- Two adjacent comments in front of a list, one between its tokens and one behind it. Its strings
hold slashes, a star and an escaped quote. -/
theorem comments_invisible_marks :
    Json.parse "[\"/*\", \"//\\\"\"]" = .ok (.list [.str "/*", .str "//\""]) ∧
    Json.parse (stripComments "/**/// x\n[\"/*\"/***/, \"//\\\"\"]//") =
      .ok (.list [.str "/*", .str "//\""]) ∧
    stripComments "[\"/*\", \"//\\\"\"]" = "[\"/*\", \"//\\\"\"]" := by
  have hText : "[\"/*\", \"//\\\"\"]".toList =
      ['['] ++ (['"', '/', '*', '"'] ++ ([','] ++ (' ' ::
        (['"', '/', '/', '\\', '"', '"'] ++ ([']'] ++ []))))) := rfl
  have hParse : Json.parse "[\"/*\", \"//\\\"\"]" = .ok (.list [.str "/*", .str "//\""]) := by
    rw [parse_eq_ok_iff, hText]
    rfl
  have hCommented : "/**/// x\n[\"/*\"/***/, \"//\\\"\"]//".toList =
      ['/', '*', '*', '/'] ++ (['/', '/', ' ', 'x', '\n'] ++ (['['] ++
        (['"', '/', '*', '"'] ++ (['/', '*', '*', '*', '/'] ++ ([','] ++ (' ' ::
          (['"', '/', '/', '\\', '"', '"'] ++ ([']'] ++ (['/', '/'] ++ []))))))))) := rfl
  have hFirst : StringTail ['/', '*', '"'] :=
    .plain (by decide) (by decide) (.plain (by decide) (by decide) .close)
  have hSecond : StringTail ['/', '/', '\\', '"', '"'] :=
    .plain (by decide) (by decide) (.plain (by decide) (by decide) (.escape '"' .close))
  obtain ⟨-, hSame, hStays⟩ := comments_invisible hParse
  refine ⟨hParse, hSame _ ?_, hStays⟩
  rw [hText, hCommented]
  refine .gap (@Comment.block [] _ (by decide)) (.gap (@Comment.line [' ', 'x'] _ (by decide)) ?_)
  refine .token (.mark (by decide)) (.token (.string hFirst) ?_)
  refine .gap (@Comment.block ['*'] _ (by decide)) (.token (.mark (by decide)) (.blank rfl ?_))
  refine .token (.string hSecond) (.token (.mark (by decide)) ?_)
  exact .gap (@Comment.lineBefore [] _ nofun nofun) .nil

/-! ## Any text -/

/-- Outside strings no comment begins in a text, which starts inside a string or outside. A string
may be left open at the end of the text, and a backslash may be its last character. -/
inductive Commentless : CommentMode → List Char → Prop where
  | nil (mode : CommentMode) : Commentless mode []
  | opens {cs : List Char} : Commentless .inText cs → Commentless .plain ('"' :: cs)
  | plain {c : Char} {cs : List Char} : c ≠ '"' →
    (c = '/' → ∀ d ∈ cs.head?, d ≠ '*' ∧ d ≠ '/') → Commentless .plain cs →
    Commentless .plain (c :: cs)
  | closes {cs : List Char} : Commentless .plain cs → Commentless .inText ('"' :: cs)
  | escape {cs : List Char} (c : Char) : Commentless .inText cs →
    Commentless .inText ('\\' :: c :: cs)
  | lone : Commentless .inText ['\\']
  | inText {c : Char} {cs : List Char} : c ≠ '"' → c ≠ '\\' → Commentless .inText cs →
    Commentless .inText (c :: cs)

/-- The mode in which what is left of a text starts: nothing of a comment is left but its line
break. -/
def CommentMode.left : CommentMode → CommentMode
  | .inText => .inText
  | _ => .plain

/-- A character that begins no comment and no string stays in front. -/
theorem head?_stripFrom {cs : List Char} (h : ∀ d ∈ cs.head?, d ≠ '/') :
    (stripFrom .plain cs).head? = cs.head? := by
  cases cs with
  | nil => simp [stripFrom]
  | cons d cs =>
    have hSlash : d ≠ '/' := h d rfl
    by_cases hQuote : d = '"'
    · subst hQuote
      simp [stripFrom]
    · rw [stripFrom_plain hQuote hSlash]
      simp

/-- No comment begins in what stripping leaves. -/
theorem stripFrom_commentless (mode : CommentMode) (cs : List Char) :
    Commentless mode.left (stripFrom mode cs) := by
  fun_induction stripFrom mode cs with
  | case1 mode => exact .nil _
  | case2 rest ih => exact .opens ih
  | case3 rest ih => exact ih
  | case4 rest ih => exact ih
  | case5 c rest hQuote hBlock hLine ih =>
    refine .plain hQuote ?_ ih
    -- a slash that stays has neither a star nor a slash behind it, so what stands there stays too
    rintro rfl
    have hNext : ∀ d ∈ rest.head?, d ≠ '*' ∧ d ≠ '/' := by
      intro d hd
      cases rest with
      | nil => simp at hd
      | cons e rest =>
        obtain rfl : e = d := by simpa using hd
        exact ⟨fun h => hBlock rest rfl (h ▸ rfl), fun h => hLine rest rfl (h ▸ rfl)⟩
    rw [head?_stripFrom fun d hd => (hNext d hd).2]
    exact hNext
  | case6 rest ih => exact .closes ih
  | case7 c rest ih => exact .escape c ih
  | case8 c rest hQuote hEscape ih =>
    by_cases hSlash : c = '\\'
    · -- a backslash that escapes nothing ends the text
      subst hSlash
      cases rest with
      | nil => exact .lone
      | cons d rest => exact absurd rfl (hEscape d rest rfl)
    · exact .inText hQuote hSlash ih
  | case9 rest ih =>
    refine .plain (by decide) (fun h => absurd h (by decide)) ih
  | case10 c rest hBreak ih => exact ih
  | case11 rest ih => exact ih
  | case12 c rest hEnd ih => exact ih

/-- Where no comment begins, stripping leaves everything. -/
theorem stripFrom_eq_self {mode : CommentMode} {cs : List Char} (h : Commentless mode cs) :
    stripFrom mode cs = cs := by
  induction h with
  | nil mode => simp [stripFrom]
  | opens _ ih => simp [stripFrom, ih]
  | @plain c cs hQuote hNext _ ih =>
    by_cases hSlash : c = '/'
    · subst hSlash
      cases cs with
      | nil => simp [stripFrom]
      | cons d cs =>
        obtain ⟨hStar, hLine⟩ := hNext rfl d rfl
        rw [stripFrom, ih]
        · simp
        · simp [hStar]
        · simp [hLine]
    · rw [stripFrom_plain hQuote hSlash, ih]
  | closes _ ih => simp [stripFrom, ih]
  | escape c _ ih => simp [stripFrom, ih]
  | lone => simp [stripFrom]
  | inText hQuote hEscape _ ih => simp [stripFrom, hEscape, ih]

/-- Stripping leaves a text alone exactly if no comment begins in it. -/
theorem stripFrom_eq_self_iff {cs : List Char} :
    stripFrom .plain cs = cs ↔ Commentless .plain cs := by
  constructor
  · intro hSame
    rw [← hSame]
    exact stripFrom_commentless .plain cs
  · exact stripFrom_eq_self

/-- **Stripping settles a text**, whether it is JSON or not: no comment begins in what is left, so
that no two characters that a comment kept apart begin a new one. Stripping leaves exactly the texts
without comments alone, and to strip once more changes nothing. -/
theorem stripping_settles (text : String) :
    Commentless .plain (stripComments text).toList ∧
      (stripComments text = text ↔ Commentless .plain text.toList) ∧
      stripComments (stripComments text) = stripComments text := by
  have hLeft : (stripComments text).toList = stripFrom .plain text.toList := String.toList_ofList
  have hCommentless : Commentless .plain (stripComments text).toList := by
    rw [hLeft]
    exact stripFrom_commentless .plain text.toList
  have hSame (t : String) : stripComments t = t ↔ Commentless .plain t.toList := by
    rw [← stripFrom_eq_self_iff, ← String.toList_inj, stripComments, String.toList_ofList]
  exact ⟨hCommentless, hSame text, (hSame _).mpr hCommentless⟩

/-- A slash on either side of a comment stays, and a string that is left open hides what follows. -/
example : stripComments "/ /**/ /\n\"/*" = "/  /\n\"/*" := by decide

end IntegrationCompiler
