import ObjectConstraint.Expr.Printer

/-!
# Tokens of the concrete syntax

A printed tree is read from its left end, one token at a time. What a character begins depends on
whether an expression is due or has just been read: a hyphen is a sign or half an arrow. Words reach
as far as their characters do; every other token has an end of its own.

* `isWord`, `isName` — the words of the syntax, and those of them that name a variable.
* `Token`, `Token.chars` — the tokens and how they are written.
* `Token.read?` — the first token of a text, with the text after it.
* `Token.read?_chars` — a token is read from every text that it begins.
-/

namespace ObjectConstraint

/-! ### Words -/

/-- The characters of names and numbers. -/
def isWordChar (c : Char) : Bool := c.isAlphanum || c = '_' || 128 ≤ c.toNat

def isWord (w : String) : Bool := w ≠ "" && w.toList.all isWordChar

/-- An identifier that is no keyword. Only the words that an expression may begin with matter. -/
def isName (w : String) : Bool :=
  isWord w && !(w.toList.head?.any Char.isDigit)
    && w ∉ ["if", "let", "not", "true", "false"]

theorem isWordChar_of_mem {w : String} (hw : isWord w) {c : Char} (hc : c ∈ w.toList) :
    isWordChar c := by
  simp only [isWord, Bool.and_eq_true, List.all_eq_true] at hw
  exact hw.2 c hc

theorem isWord_of_isName {w : String} (hw : isName w) : isWord w := by
  simp only [isName, Bool.and_eq_true] at hw
  exact hw.1.1

/-- Nothing, or text that does not go on with a word. -/
def Delimited (rest : List Char) : Prop := ∀ c ∈ rest.head?, isWordChar c = false

/-! ### Tokens -/

/-- A piece of a printed tree. -/
inductive Token where
  | word (w : String)
  | minus
  | opening
  | closing
  | comma
  /-- `.name(` or `->name(`. -/
  | selector (arrow : Bool) (name : String)
  | condition
  | negation
  /-- `let name : ty =`. -/
  | binder (name ty : String)
  /-- A word or an operator between two expressions. -/
  | between (w : String)
  | endif

namespace Token

/-- How a token is written, with the blanks that belong to it. -/
def chars : Token → List Char
  | word w => w.toList
  | minus => ['-']
  | opening => ['(']
  | closing => [')']
  | comma => [',', ' ']
  | selector arrow name => (if arrow then ['-', '>'] else ['.']) ++ name.toList ++ ['(']
  | condition => ['i', 'f', ' ']
  | negation => ['n', 'o', 't', ' ']
  | binder name ty =>
    ['l', 'e', 't', ' '] ++ name.toList ++ [' ', ':', ' '] ++ ty.toList ++ [' ', '=', ' ']
  | between w => ' ' :: w.toList ++ [' ']
  | endif => [' ', 'e', 'n', 'd', 'i', 'f']

/-- What stands between two expressions. -/
def connectors : List String := infixNames ++ ["then", "else", "in"]

/-- Whether a token may stand where an expression is due, or else where one has been read, and is
written so that it can be told where it ends. -/
def Sound (due : Bool) : Token → Prop
  | word w => due ∧ isWord w ∧ w ∉ ["if", "let", "not"]
  | minus | opening | condition | negation => due
  | closing => True
  | comma | endif => ¬ due
  | selector _ name => ¬ due ∧ '(' ∉ name.toList
  | binder name ty => due ∧ ' ' ∉ name.toList ∧ '=' ∉ ty.toList
  | between w => ¬ due ∧ w ∈ connectors

/-- Whether a token ends where the given text begins: a word might go on. -/
def EndsBefore (rest : List Char) : Token → Prop
  | word _ => Delimited rest
  | _ => True

/-! ### Reading -/

/-- The text before the first place where a character stands, and the text after that place. -/
def splitAt (stop : Char) (cs : List Char) : String × List Char :=
  (String.ofList (cs.takeWhile (· != stop)), (cs.dropWhile (· != stop)).drop 1)

theorem splitAt_append {stop : Char} {w : String} (h : stop ∉ w.toList) (rest : List Char) :
    splitAt stop (w.toList ++ stop :: rest) = (w, rest) := by
  have hpass : ∀ c ∈ w.toList, (c != stop) = true := fun c hc =>
    bne_iff_ne.mpr fun heq => h (heq ▸ hc)
  rw [splitAt, List.takeWhile_append_of_pos hpass, List.dropWhile_append_of_pos hpass]
  simp

/-- Reads a binder after its keyword. -/
def readBinder (cs : List Char) : Token × List Char :=
  let (name, afterName) := splitAt ' ' cs
  let (ty, rest) := splitAt '=' (afterName.drop 2)
  (.binder name (String.ofList ty.toList.dropLast), rest.drop 1)

/-- Reads a token that begins with a word. -/
def readWord (cs : List Char) : Option (Token × List Char) :=
  let w := String.ofList (cs.takeWhile isWordChar)
  let rest := cs.dropWhile isWordChar
  if w = "" then none
  else if w = "if" then some (.condition, rest.drop 1)
  else if w = "not" then some (.negation, rest.drop 1)
  else if w = "let" then some (readBinder (rest.drop 1))
  else some (.word w, rest)

/-- The first token of a text, where an expression is due or has just been read, and the text after
it. -/
def read? (due : Bool) : List Char → Option (Token × List Char)
  | [] => none
  | c :: cs =>
    if c = ')' then some (.closing, cs)
    else if due then
      if c = '(' then some (.opening, cs)
      else if c = '-' then some (.minus, cs)
      else readWord (c :: cs)
    else if c = ',' then some (.comma, cs.drop 1)
    else if c = '.' then
      let (name, rest) := splitAt '(' cs
      some (.selector false name, rest)
    else if c = '-' then
      let (name, rest) := splitAt '(' (cs.drop 1)
      some (.selector true name, rest)
    else if c = ' ' then
      if cs.take 5 = ['e', 'n', 'd', 'i', 'f'] then some (.endif, cs.drop 5)
      else
        let (w, rest) := splitAt ' ' cs
        some (.between w, rest)
    else none

/-- A word is cut off the text that it begins. -/
theorem splitWord {w : String} {rest : List Char} (hw : isWord w) (hrest : Delimited rest) :
    (w.toList ++ rest).takeWhile isWordChar = w.toList ∧
      (w.toList ++ rest).dropWhile isWordChar = rest := by
  have hpass : ∀ c ∈ w.toList, isWordChar c = true := fun _ hc => isWordChar_of_mem hw hc
  rw [List.takeWhile_append_of_pos hpass, List.dropWhile_append_of_pos hpass]
  cases rest with
  | nil => simp
  | cons c rest => simp [hrest c rfl]

/-- Where an expression is due, text that begins with a character of words is read as a word. -/
theorem read?_cons_of_isWordChar {c : Char} (hc : isWordChar c) (cs : List Char) :
    read? true (c :: cs) = readWord (c :: cs) := by
  have hne : ∀ d, isWordChar d = false → c ≠ d := fun d hd heq => by simp [heq, hd] at hc
  simp [read?, hne ')' (by decide), hne '(' (by decide), hne '-' (by decide)]

theorem read?_word {w : String} {rest : List Char} (hw : isWord w)
    (hkeyword : w ∉ ["if", "let", "not"]) (hrest : Delimited rest) :
    read? true (w.toList ++ rest) = some (.word w, rest) := by
  obtain ⟨htake, hdrop⟩ := splitWord hw hrest
  have hne : w ≠ "" := by simpa using (Bool.and_eq_true_iff.mp hw).1
  simp only [List.mem_cons, List.not_mem_nil, or_false, not_or] at hkeyword
  obtain ⟨hif, hlet, hnot⟩ := hkeyword
  have hread : readWord (w.toList ++ rest) = some (.word w, rest) := by
    simp [readWord, htake, hdrop, hne, hif, hlet, hnot]
  rcases hw' : w.toList with _ | ⟨c, cs⟩
  · exact absurd (String.toList_eq_nil_iff.mp hw') hne
  · rw [hw'] at hread
    rw [← hread, List.cons_append]
    exact read?_cons_of_isWordChar (isWordChar_of_mem hw (hw' ▸ List.mem_cons_self)) _

theorem readBinder_append {name ty : String} (hname : ' ' ∉ name.toList) (hty : '=' ∉ ty.toList)
    (rest : List Char) :
    readBinder (name.toList ++ ' ' :: ':' :: ' ' :: (ty.toList ++ ' ' :: '=' :: ' ' :: rest)) =
      (.binder name ty, rest) := by
  have hblank : '=' ∉ (ty ++ " ").toList := by simp [hty]
  have hsplit := splitAt_append hblank (' ' :: rest)
  rw [String.toList_append, List.append_assoc] at hsplit
  rw [readBinder, splitAt_append hname]
  simp only [List.drop_succ_cons, List.drop_zero]
  rw [show ty.toList ++ ' ' :: '=' :: ' ' :: rest = ty.toList ++ (" ".toList ++ '=' :: ' ' :: rest)
    from rfl, hsplit]
  simp

theorem read?_between {w : String} (hw : w ∈ connectors) (rest : List Char) :
    read? false ((between w).chars ++ rest) = some (.between w, rest) := by
  have hconnectors : ∀ w ∈ connectors, ' ' ∉ w.toList ∧ w.toList.take 2 ≠ ['e', 'n'] := by decide
  obtain ⟨hblank, hbegin⟩ := hconnectors w hw
  have hendif : (w.toList ++ ' ' :: rest).take 5 ≠ ['e', 'n', 'd', 'i', 'f'] := by
    generalize w.toList = cs at hbegin
    rcases cs with _ | ⟨a, _ | ⟨b, cs⟩⟩
    · simp
    · simp
    · intro heq
      simp_all
  simp [chars, read?, hendif, splitAt_append hblank]

/-- A token is read from every text that it begins, if what follows does not make it longer. -/
theorem read?_chars {due : Bool} {t : Token} {rest : List Char} (ht : t.Sound due)
    (hrest : t.EndsBefore rest) :
    read? due (t.chars ++ rest) = some (t, rest) := by
  cases t with
  | word w =>
    obtain ⟨rfl, hw, hkeyword⟩ := ht
    exact read?_word hw hkeyword hrest
  | minus | opening =>
    obtain rfl : due = true := ht
    rfl
  | closing => cases due <;> rfl
  | comma | endif =>
    obtain rfl : due = false := by simpa [Sound] using ht
    rfl
  | selector arrow name =>
    obtain ⟨hdue, hname⟩ := ht
    obtain rfl : due = false := by simpa using hdue
    cases arrow <;> simp [chars, read?, splitAt_append hname]
  | condition | negation =>
    obtain rfl : due = true := ht
    rfl
  | binder name ty =>
    obtain ⟨rfl, hname, hty⟩ := ht
    have hread := readBinder_append hname hty rest
    have hkeyword : ∀ cs, read? true ('l' :: 'e' :: 't' :: ' ' :: cs) = some (readBinder cs) :=
      fun _ => rfl
    simp [chars, hkeyword, hread]
  | between w =>
    obtain ⟨hdue, hw⟩ := ht
    obtain rfl : due = false := by simpa using hdue
    exact read?_between hw rest

/-- What may stand after an expression does not go on with a word. -/
theorem delimited_chars (t : Token) (ht : t.Sound false) (rest : List Char) :
    Delimited (t.chars ++ rest) := by
  cases t with
  | closing | comma | between | endif => simp [Delimited, chars, isWordChar]
  | selector arrow name => cases arrow <;> simp [Delimited, chars, isWordChar]
  | word | minus | opening | condition | negation | binder => simp [Sound] at ht

end Token

end ObjectConstraint
