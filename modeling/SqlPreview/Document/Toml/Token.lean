import SqlPreview.Decimal.Reading
import SqlPreview.Text.Mark

namespace SqlPreview.Toml

inductive Token where
  | blank (t : Text)
  | lineEnd
  | comment
  | dot
  | equals
  | comma
  | openSquare
  | closeSquare
  | openBrace
  | closeBrace
  | line (t : Text)
  | lines (t : Text)
  | run (t : Text)
deriving DecidableEq, Repr

-- A character that may stand in comments and quoted texts as it is: no control character except
-- the tab.
def isPlain (c : Char) : Bool :=
  c == '\t' || (decide (' ' ≤ c) && c != '\x7f')

-- The characters that stand for themselves or for a control character behind a backslash.
def escapes : List (Char × Char) :=
  [('b', '\x08'), ('t', '\t'), ('n', '\n'), ('f', '\x0c'), ('r', '\r'), ('e', '\x1b'), ('"', '"'),
    ('\\', '\\')]

-- How many hexadecimal digits follow these letters behind a backslash.
def codeLengths : List (Char × Nat) :=
  [('x', 2), ('u', 4), ('U', 8)]

-- The character of a code point. Surrogates are none.
def charOfCode? (n : Nat) : Option Char :=
  if n.isValidChar then some (Char.ofNat n) else none

-- Reads an escaped character behind its backslash.
def readEscape? : Text → Option (Char × Text)
  | [] => none
  | c :: t =>
    match codeLengths.lookup c with
    | some length =>
      if (t.take length).length = length then
        ((Decimal.readBase? 16 (t.take length)).bind charOfCode?).map fun c => (c, t.drop length)
      else none
    | none => (escapes.lookup c).map fun c => (c, t)

theorem shortens_readEscape? (t : Text) : Text.Shortens t (readEscape? t) := by
  cases t with
  | nil => exact Text.shortens_none _
  | cons c t =>
    rw [readEscape?]
    split
    · split
      · intro pair hp
        obtain ⟨_, -, rfl⟩ := Option.map_eq_some_iff.1 hp
        simp only [List.length_drop, List.length_cons]
        omega
      · exact Text.shortens_none _
    · intro pair hp
      obtain ⟨_, -, rfl⟩ := Option.map_eq_some_iff.1 hp
      simp

-- Reads a quoted text of one line behind its opening quote.
def readLine? : Text → Option (Text × Text)
  | [] => none
  | '"' :: t => some ([], t)
  | '\\' :: t =>
    match _ : readEscape? t with
    | some (c, rest) => (readLine? rest).map fun (t, rest) => (c :: t, rest)
    | none => none
  | c :: t => if isPlain c then (readLine? t).map fun (t, rest) => (c :: t, rest) else none
termination_by t => t.length
decreasing_by
  · have := (shortens_readEscape? t).length_lt ‹_›
    simp only [List.length_cons]
    omega
  · simp

-- The text without the spaces, tabs and line ends in front.
def dropSpace : Text → Text
  | ' ' :: t => dropSpace t
  | '\t' :: t => dropSpace t
  | '\n' :: t => dropSpace t
  | '\r' :: '\n' :: t => dropSpace t
  | t => t

-- Does the line end here, but for spaces and tabs?
def lineEnds : Text → Bool
  | ' ' :: t => lineEnds t
  | '\t' :: t => lineEnds t
  | '\n' :: _ => true
  | '\r' :: '\n' :: _ => true
  | _ => false

theorem length_dropSpace_le (t : Text) : (dropSpace t).length ≤ t.length := by
  fun_induction dropSpace t with
  | case1 t ih | case2 t ih | case3 t ih | case4 t ih =>
    simp only [List.length_cons]
    omega
  | case5 t => exact Nat.le_refl _

-- Reads a quoted text of several lines behind its opening quotes. It ends at three quotes; one or
-- two more before them belong to the text. A backslash at the end of a line takes away all space
-- up to the next character.
def readLines? : Text → Option (Text × Text)
  | [] => none
  | '"' :: '"' :: '"' :: '"' :: '"' :: t => some (['"', '"'], t)
  | '"' :: '"' :: '"' :: '"' :: t => some (['"'], t)
  | '"' :: '"' :: '"' :: t => some ([], t)
  | '\\' :: t =>
    if lineEnds t then readLines? (dropSpace t)
    else
      match _ : readEscape? t with
      | some (c, rest) => (readLines? rest).map fun (t, rest) => (c :: t, rest)
      | none => none
  | '\r' :: '\n' :: t => (readLines? t).map fun (t, rest) => ('\r' :: '\n' :: t, rest)
  | c :: t =>
    if isPlain c ∨ c = '\n' then (readLines? t).map fun (t, rest) => (c :: t, rest) else none
termination_by t => t.length
decreasing_by
  · have := length_dropSpace_le t
    simp only [List.length_cons]
    omega
  · have := (shortens_readEscape? t).length_lt ‹_›
    simp only [List.length_cons]
    omega
  · simp only [List.length_cons]
    omega
  · simp

-- Reads a literal text of one line behind its opening quote.
def readLiteralLine? : Text → Option (Text × Text)
  | [] => none
  | '\x27' :: t => some ([], t)
  | c :: t => if isPlain c then (readLiteralLine? t).map fun (t, rest) => (c :: t, rest) else none

-- Reads a literal text of several lines behind its opening quotes.
def readLiteralLines? : Text → Option (Text × Text)
  | [] => none
  | '\x27' :: '\x27' :: '\x27' :: '\x27' :: '\x27' :: t => some (['\x27', '\x27'], t)
  | '\x27' :: '\x27' :: '\x27' :: '\x27' :: t => some (['\x27'], t)
  | '\x27' :: '\x27' :: '\x27' :: t => some ([], t)
  | '\r' :: '\n' :: t => (readLiteralLines? t).map fun (t, rest) => ('\r' :: '\n' :: t, rest)
  | c :: t =>
    if isPlain c ∨ c = '\n' then (readLiteralLines? t).map fun (t, rest) => (c :: t, rest) else none

-- A line end right behind the opening quotes does not belong to the text.
def dropFirstLineEnd : Text → Text
  | '\n' :: t => t
  | '\r' :: '\n' :: t => t
  | t => t

def isRunChar (c : Char) : Bool :=
  !" \t\r\n#.=,[]\x7b\x7d\x22\x27".toList.contains c

def isSpace (c : Char) : Bool :=
  c == ' ' || c == '\t'

-- Reads a quoted text from its opening quotes on.
def readText? : Text → Option (Token × Text)
  | '"' :: '"' :: '"' :: t =>
    (readLines? (dropFirstLineEnd t)).map fun (t, rest) => (.lines t, rest)
  | '"' :: t => (readLine? t).map fun (t, rest) => (.line t, rest)
  | '\x27' :: '\x27' :: '\x27' :: t =>
    (readLiteralLines? (dropFirstLineEnd t)).map fun (t, rest) => (.lines t, rest)
  | '\x27' :: t => (readLiteralLine? t).map fun (t, rest) => (.line t, rest)
  | _ => none

-- The characters that are tokens by themselves.
def signs : List (Char × Token) :=
  [('\n', .lineEnd), ('.', .dot), ('=', .equals), (',', .comma), ('[', .openSquare),
    (']', .closeSquare), ('\x7b', .openBrace), ('\x7d', .closeBrace)]

def readToken? : Text → Option (Token × Text)
  | [] => none
  | '\r' :: '\n' :: t => some (.lineEnd, t)
  | c :: t =>
    match signs.lookup c with
    | some sign => some (sign, t)
    | none =>
      if c = '#' then some (.comment, t.dropWhile isPlain)
      else if isSpace c then some (.blank (c :: t.takeWhile isSpace), t.dropWhile isSpace)
      else if isRunChar c then some (.run (c :: t.takeWhile isRunChar), t.dropWhile isRunChar)
      else readText? (c :: t)

theorem length_dropFirstLineEnd_le (t : Text) : (dropFirstLineEnd t).length ≤ t.length := by
  unfold dropFirstLineEnd
  split
  · simp only [List.length_cons]; omega
  · simp only [List.length_cons]; omega
  · exact Nat.le_refl _

theorem shortens_readLine? (t : Text) : Text.Shortens t (readLine? t) := by
  fun_induction readLine? t with
  | case1 => exact Text.shortens_none _
  | case2 t => exact Text.shortens_some (Nat.lt_succ_self _)
  -- what stands behind an escape is shorter still
  | case3 t c rest he ih =>
    have hrest := (shortens_readEscape? t).length_lt he
    exact ((ih.mono (Nat.le_of_lt hrest)).cons _).map _
  | case4 => exact Text.shortens_none _
  | case5 c t _ _ _ ih => exact (ih.cons c).map _
  | case6 => exact Text.shortens_none _

theorem shortens_readLines? (t : Text) : Text.Shortens t (readLines? t) := by
  fun_induction readLines? t with
  | case1 => exact Text.shortens_none _
  | case2 t | case3 t | case4 t => exact Text.shortens_some (by simp only [List.length_cons]; omega)
  | case5 t _ ih => exact (ih.mono (length_dropSpace_le t)).cons _
  | case6 t _ c rest he ih =>
    have hrest := (shortens_readEscape? t).length_lt he
    exact ((ih.mono (Nat.le_of_lt hrest)).cons _).map _
  | case7 => exact Text.shortens_none _
  | case8 t ih => exact ((ih.cons _).cons _).map ('\r' :: '\n' :: ·)
  | case9 c t _ _ _ _ _ _ ih => exact (ih.cons c).map _
  | case10 => exact Text.shortens_none _

theorem shortens_readLiteralLine? (t : Text) : Text.Shortens t (readLiteralLine? t) := by
  fun_induction readLiteralLine? t with
  | case1 => exact Text.shortens_none _
  | case2 t => exact Text.shortens_some (Nat.lt_succ_self _)
  | case3 c t _ _ ih => exact (ih.cons c).map _
  | case4 => exact Text.shortens_none _

theorem shortens_readLiteralLines? (t : Text) : Text.Shortens t (readLiteralLines? t) := by
  fun_induction readLiteralLines? t with
  | case1 => exact Text.shortens_none _
  | case2 t | case3 t | case4 t => exact Text.shortens_some (by simp only [List.length_cons]; omega)
  | case5 t ih => exact ((ih.cons _).cons _).map ('\r' :: '\n' :: ·)
  | case6 c t _ _ _ _ _ ih => exact (ih.cons c).map _
  | case7 => exact Text.shortens_none _

theorem shortens_readText? (t : Text) : Text.Shortens t (readText? t) := by
  unfold readText?
  split
  · next t =>
    have hlines := (shortens_readLines? _).mono (length_dropFirstLineEnd_le t)
    exact (((hlines.cons _).cons _).cons _).map _
  · next t _ => exact ((shortens_readLine? t).cons _).map _
  · next t =>
    have hlines := (shortens_readLiteralLines? _).mono (length_dropFirstLineEnd_le t)
    exact (((hlines.cons _).cons _).cons _).map _
  · next t _ => exact ((shortens_readLiteralLine? t).cons _).map _
  · exact Text.shortens_none _

theorem shortens_readToken? (t : Text) : Text.Shortens t (readToken? t) := by
  unfold readToken?
  split
  · exact Text.shortens_none _
  · exact Text.shortens_some (by simp only [List.length_cons]; omega)
  · next c t _ =>
    split
    · exact Text.shortens_some (Nat.lt_succ_self _)
    · split
      · exact Text.shortens_dropWhile isPlain c t
      · split
        · exact Text.shortens_dropWhile isSpace c t
        · split
          · exact Text.shortens_dropWhile isRunChar c t
          · exact shortens_readText? (c :: t)

def token : Mark Token where
  read? := readToken?
  length_lt := (shortens_readToken? _).length_lt

-- The tokens of a document, none if some character belongs to no token.
def tokens? (t : Text) : Option (List Token) :=
  (token.scan t).mapM Piece.mark?

end SqlPreview.Toml
