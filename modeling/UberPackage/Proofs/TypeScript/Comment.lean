/-
  Comments of a text, character by character.

  A `Scanner` reads a text from left to right and knows at each character whether it stands in code,
  in a comment, in a string, in a template or in a regular expression.  Whether a slash that opens
  no comment divides or opens a regular expression depends on the grammar; the scanner is told
  (`opens`), and all that is proved here holds whatever it is told.

  A string literal brings code back to where it was (`Scanner.read_string`), and so does a block
  comment that is closed once (`Scanner.read_block`).  A line comment goes on to the end of its line
  (`Scanner.read_line`).
-/
import UberPackage.TypeScript.Lexeme

namespace UberPackage.TypeScript

/-! ## The scanner -/

/-- What the next character stands in. -/
inductive Zone where
  /-- The beginning of a text. -/
  | start
  /-- Behind a `#` at the beginning of a text. -/
  | hash
  | code
  /-- Behind a slash in code. -/
  | slash
  | line
  | block
  /-- Behind a star in a block comment. -/
  | star
  | string (quote : Char)
  | escape (quote : Char)
  /-- Behind an escaped carriage return in a string. -/
  | carried (quote : Char)
  | template
  | templateEscape
  /-- Behind a `$` in a template. -/
  | dollar
  | regex (inClass : Bool)
  | regexEscape (inClass : Bool)
deriving DecidableEq

/-- The zone is that of a comment. -/
def Zone.isComment : Zone → Bool
  | line | block | star => true
  | _ => false

/-- A place in a text, as reading up to it has shown it. -/
structure Scanner where
  zone : Zone := .start
  /-- The braces that are open in each template substitution around the place, the innermost
  first. -/
  braces : List Nat := []
  /-- The slashes that have opened no comment. -/
  slashes : Nat := 0
deriving DecidableEq

namespace Scanner

/-- The same place in another zone. -/
def enter (s : Scanner) (zone : Zone) : Scanner := { s with zone }

/-- Behind a character of code. -/
def inCode (s : Scanner) (c : Char) : Scanner :=
  if c = '/' then s.enter .slash
  else if c = '\'' ∨ c = '"' then s.enter (.string c)
  else if c = '`' then s.enter .template
  else if c = '\x7b' then
    match s.braces with
    | [] => s.enter .code
    | n :: ns => { s with zone := .code, braces := (n + 1) :: ns }
  else if c = '\x7d' then
    match s.braces with
    | [] => s.enter .code
    | 0 :: ns => { s with zone := .template, braces := ns }
    | (n + 1) :: ns => { s with zone := .code, braces := n :: ns }
  else s.enter .code

/-- Behind a character of a string.  A string does not go beyond its line. -/
def inString (s : Scanner) (quote c : Char) : Scanner :=
  if c = '\\' then s.enter (.escape quote)
  else if c = quote ∨ c = '\n' ∨ c = '\r' then s.enter .code
  else s.enter (.string quote)

/-- Behind a character of a template. -/
def inTemplate (s : Scanner) (c : Char) : Scanner :=
  if c = '\\' then s.enter .templateEscape
  else if c = '`' then s.enter .code
  else if c = '$' then s.enter .dollar
  else s.enter .template

/-- Behind a character of a regular expression. -/
def inRegex (s : Scanner) (inClass : Bool) (c : Char) : Scanner :=
  if c = '\\' then s.enter (.regexEscape inClass)
  else if c = '[' then s.enter (.regex true)
  else if c = ']' then s.enter (.regex false)
  else if isLineEnd c ∨ c = '/' ∧ inClass = false then s.enter .code
  else s.enter (.regex inClass)

variable (opens : Nat → Bool)

/-- Behind one more character. -/
def step (s : Scanner) (c : Char) : Scanner :=
  match s.zone with
  | .start => if c = '#' then s.enter .hash else s.inCode c
  | .hash => if c = '!' then s.enter .line else s.inCode c
  | .code => s.inCode c
  | .slash =>
    let lone := { s with slashes := s.slashes + 1 }
    if c = '/' then s.enter .line
    else if c = '*' then s.enter .block
    else if opens s.slashes then lone.inRegex false c
    else lone.inCode c
  | .line => if isLineEnd c then s.enter .code else s
  | .block => if c = '*' then s.enter .star else s
  | .star => if c = '/' then s.enter .code else if c = '*' then s else s.enter .block
  | .string quote => s.inString quote c
  | .escape quote => s.enter (if c = '\r' then .carried quote else .string quote)
  | .carried quote => if c = '\n' then s.enter (.string quote) else s.inString quote c
  | .template => s.inTemplate c
  | .templateEscape => s.enter .template
  | .dollar =>
    if c = '\x7b' then { s with zone := .code, braces := 0 :: s.braces } else s.inTemplate c
  | .regex inClass => s.inRegex inClass c
  | .regexEscape inClass => s.enter (if isLineEnd c then .code else .regex inClass)

/-- Behind a stretch of text. -/
def read (s : Scanner) (cs : List Char) : Scanner := cs.foldl (step opens) s

/-- The character is part of a comment, its marks included. -/
def inside (s : Scanner) (c : Char) (next? : Option Char) : Bool :=
  let t := s.step opens c
  t.zone.isComment || (s.zone == .star && c == '/') ||
    (t.zone == .slash && (next? == some '/' || next? == some '*')) ||
    (t.zone == .hash && next? == some '!')

variable {opens} {s : Scanner}

theorem read_nil : s.read opens [] = s := rfl

theorem read_cons (c : Char) (cs : List Char) :
    s.read opens (c :: cs) = (s.step opens c).read opens cs := rfl

theorem read_append (xs ys : List Char) :
    s.read opens (xs ++ ys) = (s.read opens xs).read opens ys :=
  List.foldl_append

theorem enter_enter (z z' : Zone) : (s.enter z).enter z' = s.enter z' := rfl

theorem zone_enter (z : Zone) : (s.enter z).zone = z := rfl

theorem enter_zone {z : Zone} (h : s.zone = z) : s.enter z = s := by
  subst h
  rfl

/-- In code and in a line comment the next character does not count. -/
theorem inside_congr {c : Char} {next? other? : Option Char}
    (h : next? = other? ∨ (s.step opens c).zone = .code ∨ (s.step opens c).zone = .line) :
    s.inside opens c next? = s.inside opens c other? := by
  rcases h with rfl | h | h
  · rfl
  all_goals
    simp only [inside, h]
    rfl

end Scanner

/-- A character between two stretches of text is part of a comment, and so are its bytes. -/
def InComment (opens : Nat → Bool) (xs : List Char) (c : Char) (ys : List Char) : Prop :=
  (Scanner.read opens {} xs).inside opens c ys.head? = true

/-! ## Strings -/

/-- What stands between the quotes of a string. -/
inductive StringBody (quote : Char) : List Char → Prop where
  | nil : StringBody quote []
  | plain {c : Char} {cs : List Char} (hq : c ≠ quote) (he : c ≠ '\\') (hn : c ≠ '\n')
      (hr : c ≠ '\r') (h : StringBody quote cs) : StringBody quote (c :: cs)
  | escaped (c : Char) {cs : List Char} (h : StringBody quote cs) :
      StringBody quote ('\\' :: c :: cs)
  | continued {cs : List Char} (h : StringBody quote cs) :
      StringBody quote ('\\' :: '\r' :: '\n' :: cs)

/-- A string literal. -/
def IsString (cs : List Char) : Prop :=
  ∃ quote body, (quote = '\'' ∨ quote = '"') ∧ StringBody quote body ∧
  cs = quote :: (body ++ [quote])

/-- What stands between the quotes can be checked character by character. -/
def isStringBody (quote : Char) : List Char → Bool
  | [] => true
  | '\\' :: '\r' :: '\n' :: cs => isStringBody quote cs
  | '\\' :: _ :: cs => isStringBody quote cs
  | c :: cs => c != quote && c != '\\' && c != '\n' && c != '\r' && isStringBody quote cs

theorem stringBody_of_check {quote : Char} {cs : List Char} (h : isStringBody quote cs = true) :
    StringBody quote cs := by
  fun_induction isStringBody quote cs with
  | case1 => exact .nil
  | case2 cs ih => exact .continued (ih h)
  | case3 c cs _ ih => exact .escaped c (ih h)
  | case4 c cs _ _ ih =>
    simp only [Bool.and_eq_true, bne_iff_ne] at h
    exact .plain h.1.1.1.1 h.1.1.1.2 h.1.1.2 h.1.2 (ih h.2)

/-- The characters are a string literal. -/
def isString : List Char → Bool
  | [] => false
  | quote :: rest => (quote == '\'' || quote == '"') && rest.getLast? == some quote &&
      isStringBody quote rest.dropLast

theorem isString_of_check {cs : List Char} (h : isString cs = true) : IsString cs := by
  cases cs with
  | nil => cases h
  | cons quote rest =>
    simp only [isString, Bool.and_eq_true, Bool.or_eq_true, beq_iff_eq] at h
    obtain ⟨⟨hquote, hlast⟩, hbody⟩ := h
    obtain ⟨body, rfl⟩ := List.getLast?_eq_some_iff.mp hlast
    rw [List.dropLast_concat] at hbody
    exact ⟨quote, body, hquote, stringBody_of_check hbody, rfl⟩

namespace Scanner

variable {opens : Nat → Bool} {s : Scanner}

/-- A string is left at its closing quote.  Behind an escaped carriage return it goes on as
elsewhere. -/
theorem read_stringBody {quote : Char} {body : List Char} (hquote : quote = '\'' ∨ quote = '"')
    (h : StringBody quote body) (hs : s.zone = .string quote ∨ s.zone = .carried quote) :
    s.read opens (body ++ [quote]) = s.enter .code := by
  have hstep : ∀ c, c ≠ '\n' → s.step opens c = s.inString quote c := by
    intro c hc
    rcases hs with hs | hs <;> simp [step, hs, hc]
  induction h generalizing s with
  | nil =>
    have hne : quote ≠ '\n' ∧ quote ≠ '\\' := by rcases hquote with rfl | rfl <;> decide
    rw [List.nil_append, read_cons, read_nil, hstep _ hne.1, inString, if_neg hne.2,
      if_pos (Or.inl rfl)]
  | @plain c cs hq he hn hr _ ih =>
    have hc : s.step opens c = s.enter (.string quote) := by
      rw [hstep c hn, inString, if_neg he, if_neg (by simp [hq, hn, hr])]
    rw [List.cons_append, read_cons, hc]
    exact ih (Or.inl rfl) fun d hd => rfl
  | @escaped c cs _ ih =>
    have hc : s.step opens '\\' = s.enter (.escape quote) := hstep '\\' (by decide)
    rw [List.cons_append, List.cons_append, read_cons, hc, read_cons]
    by_cases hr : c = '\r'
    · have hd : (s.enter (.escape quote)).step opens c = s.enter (.carried quote) := by
        simp [step, enter, hr]
      rw [hd]
      exact ih (Or.inr rfl) fun d hd => if_neg hd
    · have hd : (s.enter (.escape quote)).step opens c = s.enter (.string quote) := by
        simp [step, enter, hr]
      rw [hd]
      exact ih (Or.inl rfl) fun d hd => rfl
  | @continued cs _ ih =>
    have hc : s.step opens '\\' = s.enter (.escape quote) := hstep '\\' (by decide)
    rw [List.cons_append, List.cons_append, List.cons_append, read_cons, hc, read_cons, read_cons]
    exact ih (s := s.enter (.string quote)) (Or.inl rfl) fun d hd => rfl

/-- A string literal leads from code to the same code. -/
theorem read_string {cs : List Char} (h : IsString cs) (hs : s.zone = .code) :
    s.read opens cs = s := by
  obtain ⟨quote, body, hquote, hbody, rfl⟩ := h
  have hopen : s.step opens quote = s.enter (.string quote) := by
    rcases hquote with rfl | rfl <;> simp [step, hs, inCode]
  rw [read_cons, hopen, read_stringBody hquote hbody (Or.inl rfl), enter_enter, enter_zone hs]

/-! ## Comments -/

/-- A line comment goes on through all that does not end the line. -/
theorem read_line {cs : List Char} (hs : s.zone = .line) (h : ∀ c ∈ cs, isLineEnd c = false) :
    s.read opens cs = s := by
  induction cs with
  | nil => rfl
  | cons c cs ih =>
    have hc : s.step opens c = s := by simp [step, hs, h c List.mem_cons_self]
    rw [read_cons, hc]
    exact ih fun d hd => h d (List.mem_cons_of_mem _ hd)

/-- A line comment that is opened in code leads back to it. -/
theorem step_line {c : Char} (hs : s.zone = .code) :
    (s.enter .line).step opens c = if isLineEnd c then s else s.enter .line := by
  rw [step, zone_enter]
  dsimp only
  rw [enter_enter, enter_zone hs]

/-- Two slashes in code open a line comment. -/
theorem read_openLine {cs : List Char} (hs : s.zone = .code) (h : ∀ c ∈ cs, isLineEnd c = false) :
    s.read opens ('/' :: '/' :: cs) = s.enter .line := by
  have hopen : s.step opens '/' = s.enter .slash := by simp [step, hs, inCode]
  rw [read_cons, hopen, read_cons]
  exact read_line rfl h

/-- What a block comment is closed with. -/
def closing : List Char := ['*', '/']

/-- A block comment goes on through all that does not close it, also behind a star. -/
theorem read_open {cs : List Char} :
    (¬ closing <:+: cs → s.zone = .block →
      s.read opens cs = s.enter .block ∨ s.read opens cs = s.enter .star) ∧
    (¬ closing <:+: '*' :: cs → s.zone = .star →
      s.read opens cs = s.enter .block ∨ s.read opens cs = s.enter .star) := by
  induction cs generalizing s with
  | nil => exact ⟨fun _ hs => Or.inl (enter_zone hs).symm, fun _ hs => Or.inr (enter_zone hs).symm⟩
  | cons c cs ih =>
    refine ⟨fun h hs => ?_, fun h hs => ?_⟩
    · by_cases hc : c = '*'
      · have hstep : s.step opens c = s.enter .star := by simp [step, hs, hc]
        rw [read_cons, hstep]
        exact ih.2 (hc ▸ h) rfl
      · have hstep : s.step opens c = s := by simp [step, hs, hc]
        rw [read_cons, hstep]
        exact ih.1 (fun hi => h (hi.trans (List.infix_cons List.infix_rfl))) hs
    · have hslash : c ≠ '/' := by
        rintro rfl
        exact h (List.IsPrefix.isInfix (List.prefix_append closing cs))
      have hrest : ¬ closing <:+: c :: cs := fun hi => h (hi.trans (List.infix_cons List.infix_rfl))
      by_cases hc : c = '*'
      · have hstep : s.step opens c = s := by simp [step, hs, hc]
        rw [read_cons, hstep]
        exact ih.2 (hc ▸ hrest) hs
      · have hstep : s.step opens c = s.enter .block := by simp [step, hs, hc, hslash]
        rw [read_cons, hstep]
        exact ih.1 (fun hi => hrest (hi.trans (List.infix_cons List.infix_rfl))) rfl

/-- A block comment that is closed only at its end leads from code to the same code. -/
theorem read_block {cs : List Char} (h : ¬ closing <:+: cs) (hs : s.zone = .code) :
    s.read opens ('/' :: '*' :: (cs ++ closing)) = s := by
  have hopen : s.step opens '/' = s.enter .slash := by simp [step, hs, inCode]
  have hbody : (s.enter .block).read opens cs = s.enter .block ∨
      (s.enter .block).read opens cs = s.enter .star := read_open.1 h rfl
  have hblock : ((s.enter .slash).step opens '*').read opens cs = (s.enter .block).read opens cs :=
    rfl
  rw [read_cons, hopen, read_cons, read_append, hblock]
  rcases hbody with hr | hr
  · rw [hr]
    exact enter_zone hs
  · rw [hr]
    exact enter_zone hs

end Scanner

end UberPackage.TypeScript
