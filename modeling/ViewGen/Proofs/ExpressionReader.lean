import Mathlib.Data.List.Forall2
import ViewGen.Script.Printer

/-!
# Reading expressions

A reader for expressions, as the language of scripts defines them.  It is independent of the
printer: it knows tokens, brackets and the precedence of operators, and nothing of how a text came
about.

## Main definitions

* `Tree` — an expression as it is read
* `Tree.Reassociates` — the same expression but for how chains of one connective are nested
* `Tree.leftNested` — a tree with its chains nested to the left, as they are read
* `Expr.tree?` — the tree of an expression without functions, objects and elements
* `Reading.tokens` — a text in tokens
* `Reading.readOr`, `readAnd`, `readComparison`, `readNot`, `readAccess` — one level of precedence
  each, the loosest first
* `Reading.read` — the tree of a text

## Main statements

* `Tree.reassociates_iff` — two trees differ in the nesting of chains only when they are equal once
  their chains are nested to the left

## Design notes

Brackets are matched from the left to the right: what stands between two brackets is read when the
second one comes up, and is a single item from then on.  Between brackets the loosest operator is
looked for first: a text is cut at all `||`, its parts at all `&&`, and so on, and what was cut is
joined again from the left.  So no function has to be told how deep a text is nested.
-/

namespace ViewGen

/-- An expression as it is read. Numbers are kept as they are written, with their sign. -/
inductive Tree where
  | name (name : String)
  | member (object : Tree) (property : String)
  | literal (s : String)
  | number (text : String)
  | bool (b : Bool)
  | null
  | array (items : List Tree)
  | compare (comparison : Comparison) (left right : Tree)
  | logical (connective : Connective) (left right : Tree)
  | not (argument : Tree)
  | call (callee : Tree) (arguments : List Tree)

/-- Two trees are the same but for how chains of one connective are nested: `a && (b && c)` is
`(a && b) && c`. -/
inductive Tree.Reassociates : Tree → Tree → Prop
  | refl (t : Tree) : Reassociates t t
  | symm {s t : Tree} : Reassociates s t → Reassociates t s
  | trans {s t u : Tree} : Reassociates s t → Reassociates t u → Reassociates s u
  | chain (connective : Connective) (a b c : Tree) :
      Reassociates (.logical connective a (.logical connective b c))
        (.logical connective (.logical connective a b) c)
  | member {s t : Tree} (property : String) : Reassociates s t →
      Reassociates (.member s property) (.member t property)
  | item {s t : Tree} (before after : List Tree) : Reassociates s t →
      Reassociates (.array (before ++ s :: after)) (.array (before ++ t :: after))
  | compare {s t s' t' : Tree} (comparison : Comparison) : Reassociates s t → Reassociates s' t' →
      Reassociates (.compare comparison s s') (.compare comparison t t')
  | logical {s t s' t' : Tree} (connective : Connective) : Reassociates s t → Reassociates s' t' →
      Reassociates (.logical connective s s') (.logical connective t t')
  | not {s t : Tree} : Reassociates s t → Reassociates (.not s) (.not t)
  | callee {s t : Tree} (arguments : List Tree) : Reassociates s t →
      Reassociates (.call s arguments) (.call t arguments)
  | argument {s t : Tree} (callee : Tree) (before after : List Tree) : Reassociates s t →
      Reassociates (.call callee (before ++ s :: after)) (.call callee (before ++ t :: after))

/-! ## Chains to the left -/

/-- Put a tree before a chain of a connective that is nested to the left. -/
def Tree.attach (connective : Connective) (left : Tree) : Tree → Tree
  | .logical other first last =>
    if other = connective then .logical connective (Tree.attach connective left first) last
    else .logical connective left (.logical other first last)
  | t => .logical connective left t

mutual

/-- A tree with all its chains nested to the left, which is how they are read. -/
def Tree.leftNested : Tree → Tree
  | .name name => .name name
  | .member object property => .member (Tree.leftNested object) property
  | .literal s => .literal s
  | .number text => .number text
  | .bool b => .bool b
  | .null => .null
  | .array items => .array (leftNestedAll items)
  | .compare comparison left right =>
    .compare comparison (Tree.leftNested left) (Tree.leftNested right)
  | .logical connective left right =>
    (Tree.leftNested left).attach connective (Tree.leftNested right)
  | .not argument => .not (Tree.leftNested argument)
  | .call callee arguments => .call (Tree.leftNested callee) (leftNestedAll arguments)

/-- Trees with all their chains nested to the left. -/
def leftNestedAll : List Tree → List Tree
  | [] => []
  | t :: rest => Tree.leftNested t :: leftNestedAll rest

end

namespace Tree

variable {c : Connective}

@[simp]
theorem attach_logical (left first last : Tree) :
    attach c left (.logical c first last) = .logical c (attach c left first) last := by
  rw [attach, if_pos rfl]

/-- A tree that is no chain of a connective: what is put before it is joined to it as a whole. -/
def Single (c : Connective) (t : Tree) : Prop :=
  ∀ left, attach c left t = .logical c left t

/-- A chain of one connective is no chain of the other. -/
theorem single_logical {d : Connective} (h : d ≠ c) (first last : Tree) :
    Single c (.logical d first last) := by
  intro left
  rw [attach, if_neg h]

/-- Every tree is a chain or is none. -/
theorem single_or_logical (c : Connective) (t : Tree) :
    Single c t ∨ ∃ first last, t = .logical c first last := by
  cases t with
  | logical d first last =>
      by_cases h : d = c
      · exact .inr ⟨first, last, by rw [h]⟩
      · exact .inl (single_logical h first last)
  | _ => exact .inl fun _ => rfl

/-- What is attached is a chain again. -/
theorem exists_attach_eq (c : Connective) (left t : Tree) :
    ∃ first last, attach c left t = .logical c first last := by
  rcases single_or_logical c t with hsingle | ⟨first, last, rfl⟩
  · exact ⟨left, t, hsingle left⟩
  · exact ⟨_, last, attach_logical left first last⟩

/-- Chains are attached to each other in any order. -/
theorem attach_attach (c : Connective) (a b : Tree) :
    ∀ t : Tree, attach c a (attach c b t) = attach c (attach c a b) t
  | .logical d first last => by
    by_cases h : d = c
    -- The last operand of a chain stays where it is, whatever is attached to the chain.
    · subst h
      rw [attach_logical, attach_logical, attach_logical, attach_attach d a b first]
    · have hsingle := single_logical h first last
      rw [hsingle, hsingle, attach_logical]
  | .name _ | .member _ _ | .literal _ | .number _ | .bool _ | .null | .array _ | .compare _ _ _
  | .not _ | .call _ _ => attach_logical a b _

/-- Attaching a tree is joining it, but for the nesting. -/
theorem reassociates_attach (c : Connective) (left : Tree) :
    ∀ t : Tree, Reassociates (.logical c left t) (attach c left t)
  | .logical d first last => by
    by_cases h : d = c
    · subst h
      rw [attach_logical]
      exact (Reassociates.chain d left first last).trans
        (.logical d (reassociates_attach d left first) (.refl last))
    · rw [single_logical h first last left]
      exact .refl _
  | .name _ | .member _ _ | .literal _ | .number _ | .bool _ | .null | .array _ | .compare _ _ _
  | .not _ | .call _ _ => .refl _

/-- Where one tree of a list may be replaced, all of them may. -/
theorem Reassociates.of_forall₂ {f : List Tree → Tree}
    (hf : ∀ {s t : Tree} (before after : List Tree), Reassociates s t →
      Reassociates (f (before ++ s :: after)) (f (before ++ t :: after)))
    {ss ts : List Tree} (h : List.Forall₂ Reassociates ss ts) :
    ∀ before, Reassociates (f (before ++ ss)) (f (before ++ ts)) := by
  induction h with
  | nil => exact fun _ => .refl _
  | @cons s t ss ts hst _ ih =>
      intro before
      have hrest := ih (before ++ [t])
      rw [List.append_assoc, List.append_assoc] at hrest
      exact (hf before ss hst).trans hrest

end Tree

mutual

/-- A tree is the same with its chains nested to the left. -/
theorem Tree.reassociates_leftNested : ∀ t : Tree, t.Reassociates t.leftNested
  | .member object property => .member property (Tree.reassociates_leftNested object)
  | .array items => Tree.Reassociates.of_forall₂ .item (forall₂_leftNestedAll items) []
  | .compare comparison left right =>
    .compare comparison (Tree.reassociates_leftNested left) (Tree.reassociates_leftNested right)
  | .logical connective left right =>
    (Tree.Reassociates.logical connective (Tree.reassociates_leftNested left)
      (Tree.reassociates_leftNested right)).trans (Tree.reassociates_attach connective _ _)
  | .not argument => .not (Tree.reassociates_leftNested argument)
  | .call callee arguments =>
    (Tree.Reassociates.callee arguments (Tree.reassociates_leftNested callee)).trans
      (Tree.Reassociates.of_forall₂ (.argument _) (forall₂_leftNestedAll arguments) [])
  | .name _ | .literal _ | .number _ | .bool _ | .null => .refl _

theorem forall₂_leftNestedAll : ∀ ts : List Tree,
    List.Forall₂ Tree.Reassociates ts (leftNestedAll ts)
  | [] => .nil
  | t :: rest => .cons (Tree.reassociates_leftNested t) (forall₂_leftNestedAll rest)

end

theorem leftNestedAll_eq_map (ts : List Tree) : leftNestedAll ts = ts.map Tree.leftNested := by
  induction ts with
  | nil => rfl
  | cons t rest ih => rw [leftNestedAll, ih, List.map_cons]

/-- **Trees that differ in the nesting of chains only** are those that are equal once their chains
are nested to the left. -/
theorem Tree.reassociates_iff {s t : Tree} : s.Reassociates t ↔ s.leftNested = t.leftNested := by
  constructor
  · intro h
    induction h with
    | refl => rfl
    | symm _ ih => exact ih.symm
    | trans _ _ ih ih' => exact ih.trans ih'
    | chain => simp only [leftNested, attach_attach]
    | member _ _ ih => simp only [leftNested, ih]
    | item _ _ _ ih =>
        simp only [leftNested, leftNestedAll_eq_map, List.map_append, List.map_cons, ih]
    | compare _ _ _ ih ih' => simp only [leftNested, ih, ih']
    | logical _ _ _ ih ih' => simp only [leftNested, ih, ih']
    | not _ ih => simp only [leftNested, ih]
    | callee _ _ ih => simp only [leftNested, ih]
    | argument _ _ _ _ ih =>
        simp only [leftNested, leftNestedAll_eq_map, List.map_append, List.map_cons, ih]
  · intro h
    have hleft := s.reassociates_leftNested
    rw [h] at hleft
    exact hleft.trans t.reassociates_leftNested.symm

/-! ## Trees of expressions -/

/-- Words that stand for a value, and cannot be names. -/
def valueWords : List String :=
  ["true", "false", "null"]

/-- Whether an expression is a number. -/
def Expr.isNumber : Expr → Bool
  | .num _ => true
  | _ => false

mutual

/-- The tree of an expression that is built from names, member accesses, literals, finite numbers,
arrays, calls, comparisons, connectives and negations. A member of a number has no tree, since its
point would be read as part of the number. -/
def Expr.tree? : Expr → Option Tree
  | .ident name =>
    if isIdentifier name && !valueWords.contains name then some (.name name) else none
  | .member object property =>
    if object.isNumber then none else (Expr.tree? object).map (.member · property)
  | .str s => some (.literal s)
  | .num x => if x.isNaN || x.isInf then none else some (.number (Number.text x))
  | .bool b => some (.bool b)
  | .null => some .null
  | .array items => (treesOf? items).map .array
  | .compare comparison left right =>
    (Expr.tree? left).bind fun l => (Expr.tree? right).map fun r => .compare comparison l r
  | .logical connective left right =>
    (Expr.tree? left).bind fun l => (Expr.tree? right).map fun r => .logical connective l r
  | .not argument => (Expr.tree? argument).map .not
  | .call callee arguments =>
    (Expr.tree? callee).bind fun f => (treesOf? arguments).map fun xs => .call f xs
  | .object _ | .arrow _ _ | .arrowBlock _ _ | .element _ => none

/-- The trees of expressions. -/
def treesOf? : List Expr → Option (List Tree)
  | [] => some []
  | e :: rest => (Expr.tree? e).bind fun t => (treesOf? rest).map (t :: ·)

end

namespace Reading

/-! ## Tokens -/

/-- A token that is no bracket. -/
inductive Lexeme where
  | word (name : String)
  | number (text : String)
  | literal (s : String)
  | comparison (comparison : Comparison)
  | connective (connective : Connective)
  | not
  | dot
  | comma
  deriving DecidableEq

/-- The two kinds of brackets. -/
inductive Bracket where
  | round
  | square
  deriving DecidableEq

/-- A token. -/
inductive Token where
  | lexeme (l : Lexeme)
  | opening (b : Bracket)
  | closing (b : Bracket)
  deriving DecidableEq

/-- The character that a backslash and another character stand for. -/
def escaped? (c : Char) : Option Char :=
  if c == '\'' then some '\'' else Json.shortEscape? c

/-- Read the rest of a literal after its opening quote, as code points. Halves of surrogate pairs
are kept apart. The second component counts the characters, the closing quote included. -/
def literalUnits : List Char → Option (List Nat × Nat)
  | [] => none
  | '\'' :: _ => some ([], 1)
  | '\\' :: 'u' :: a :: b :: c :: d :: cs =>
    (Json.hexUnit? a b c d).bind fun unit =>
      (literalUnits cs).map fun (units, count) => (unit :: units, count + 6)
  | '\\' :: e :: cs =>
    (escaped? e).bind fun c =>
      (literalUnits cs).map fun (units, count) => (c.toNat :: units, count + 2)
  | c :: cs =>
    if c == '\\' || c == '\n' || c == '\r' then none
    else (literalUnits cs).map fun (units, count) => (c.toNat :: units, count + 1)

/-- Whether characters are a number without a sign: digits, and digits after a point if there is
one. -/
def isUnsigned (cs : List Char) : Bool :=
  !(cs.takeWhile Char.isDigit).isEmpty &&
    match cs.dropWhile Char.isDigit with
    | [] => true
    | point :: fraction => point == '.' && !fraction.isEmpty && fraction.all Char.isDigit

/-- Whether characters are a number, with a minus or without one. -/
def isNumeral (cs : List Char) : Bool :=
  isUnsigned (if cs.head? = some '-' then cs.tail else cs)

/-- A character that a number goes on with. -/
def continuesNumber (c : Char) : Bool :=
  c.isDigit || c == '.'

/-- The sign or bracket at the start of a text, and how many characters after the first belong to
it. -/
def signAt? : Char → List Char → Option (Token × Nat)
  | '(', _ => some (.opening .round, 0)
  | ')', _ => some (.closing .round, 0)
  | '[', _ => some (.opening .square, 0)
  | ']', _ => some (.closing .square, 0)
  | ',', _ => some (.lexeme .comma, 0)
  | '.', _ => some (.lexeme .dot, 0)
  | '&', '&' :: _ => some (.lexeme (.connective .and), 1)
  | '|', '|' :: _ => some (.lexeme (.connective .or), 1)
  | '=', '=' :: '=' :: _ => some (.lexeme (.comparison .equal), 2)
  | '!', '=' :: '=' :: _ => some (.lexeme (.comparison .notEqual), 2)
  | '!', _ => some (.lexeme .not, 0)
  | '>', '=' :: _ => some (.lexeme (.comparison .greaterOrEqual), 1)
  | '>', _ => some (.lexeme (.comparison .greater), 0)
  | '<', '=' :: _ => some (.lexeme (.comparison .lessOrEqual), 1)
  | '<', _ => some (.lexeme (.comparison .less), 0)
  | _, _ => none

/-- The token at the start of a text that begins with a given character, and how many characters
after the first belong to it. Words and numbers are as long as possible. -/
def tokenAt? (c : Char) (cs : List Char) : Option (Token × Nat) :=
  if startsIdentifier c then
    let more := cs.takeWhile continuesIdentifier
    some (.lexeme (.word (String.ofList (c :: more))), more.length)
  else if c.isDigit || c == '-' then
    let more := cs.takeWhile continuesNumber
    if isNumeral (c :: more) then
      some (.lexeme (.number (String.ofList (c :: more))), more.length)
    else none
  else if c == '\'' then
    (literalUnits cs).bind fun (units, count) =>
      (Json.joinUnits? units).map fun s => (.lexeme (.literal (String.ofList s)), count)
  else signAt? c cs

/-- The tokens of a text; `skip` characters belong to the token before and are passed over. -/
def tokensFrom : Nat → List Char → Option (List Token)
  | _, [] => some []
  | skip + 1, _ :: cs => tokensFrom skip cs
  | 0, c :: cs =>
    if Json.isGap c then tokensFrom 0 cs
    else (tokenAt? c cs).bind fun (token, more) => (tokensFrom more cs).map (token :: ·)

/-- The tokens of a text. -/
def tokens (cs : List Char) : Option (List Token) :=
  tokensFrom 0 cs

/-! ## Operators -/

/-- What stands between two brackets: tokens, and the trees inside a pair of brackets. -/
inductive Item where
  | lexeme (l : Lexeme)
  | group (b : Bracket) (trees : List Tree)

/-- Cut a list at the signs in it: the part before the first sign, and each sign with the part after
it. -/
def cut {α β : Type} (sign? : α → Option β) : List α → List α × List (β × List α)
  | [] => ([], [])
  | x :: xs =>
    let (first, others) := cut sign? xs
    match sign? x with
    | some sign => ([], (sign, first) :: others)
    | none => (x :: first, others)

/-- Join a tree with further parts, from the left to the right. -/
def joinParts {β : Type} (join : β → Tree → Tree → Tree) (part : List Item → Option Tree) :
    Tree → List (β × List Item) → Option Tree
  | left, [] => some left
  | left, (sign, items) :: others =>
    (part items).bind fun right => joinParts join part (join sign left right) others

/-- Read parts that are joined by signs. -/
def readJoined {β : Type} (sign? : Item → Option β) (join : β → Tree → Tree → Tree)
    (part : List Item → Option Tree) (items : List Item) : Option Tree :=
  (part (cut sign? items).1).bind fun first => joinParts join part first (cut sign? items).2

/-- The connective that an item is, if it is the given one. -/
def Item.connective? (connective : Connective) : Item → Option Connective
  | .lexeme (.connective found) => if found = connective then some found else none
  | _ => none

/-- The comparison that an item is. -/
def Item.comparison? : Item → Option Comparison
  | .lexeme (.comparison comparison) => some comparison
  | _ => none

/-- Whether an item is a comma. -/
def Item.comma? : Item → Option Unit
  | .lexeme .comma => some ()
  | _ => none

/-- The tree of an item that stands by itself. -/
def Item.primary? : Item → Option Tree
  | .lexeme (.word "true") => some (.bool true)
  | .lexeme (.word "false") => some (.bool false)
  | .lexeme (.word "null") => some .null
  | .lexeme (.word name) => some (.name name)
  | .lexeme (.number text) => some (.number text)
  | .lexeme (.literal s) => some (.literal s)
  | .group .round [tree] => some tree
  | .group .square trees => some (.array trees)
  | _ => none

/-- Read member accesses and calls after a tree. -/
def readAccessors : Tree → List Item → Option Tree
  | object, [] => some object
  | object, .lexeme .dot :: .lexeme (.word property) :: rest =>
    readAccessors (.member object property) rest
  | object, .group .square [.literal property] :: rest =>
    readAccessors (.member object property) rest
  | callee, .group .round arguments :: rest => readAccessors (.call callee arguments) rest
  | _, _ => none

/-- Read what stands by itself, with the member accesses and calls after it. -/
def readAccess : List Item → Option Tree
  | [] => none
  | first :: rest => first.primary?.bind fun tree => readAccessors tree rest

/-- Read negations. -/
def readNot : List Item → Option Tree
  | .lexeme .not :: rest => (readNot rest).map .not
  | items => readAccess items

/-- Read comparisons. -/
def readComparison : List Item → Option Tree :=
  readJoined Item.comparison? .compare readNot

/-- Read parts that are joined by `&&`. -/
def readAnd : List Item → Option Tree :=
  readJoined (Item.connective? .and) .logical readComparison

/-- Read parts that are joined by `||`. -/
def readOr : List Item → Option Tree :=
  readJoined (Item.connective? .or) .logical readAnd

/-! ## Brackets -/

/-- Read what stands between two brackets: expressions with commas between them, or nothing. -/
def readGroup (items : List Item) : Option (List Tree) :=
  if items.isEmpty then some []
  else ((cut Item.comma? items).1 :: (cut Item.comma? items).2.map Prod.snd).mapM readOr

/-- Read tokens. The first argument has the brackets that are open, the last one first, each with
the items before it; the second has the items since then. -/
def readTokens : List (Bracket × List Item) → List Item → List Token → Option Tree
  | [], items, [] => readOr items
  | _ :: _, _, [] => none
  | stack, items, .lexeme l :: tokens => readTokens stack (items ++ [.lexeme l]) tokens
  | stack, items, .opening b :: tokens => readTokens ((b, items) :: stack) [] tokens
  | [], _, .closing _ :: _ => none
  | (opened, before) :: stack, items, .closing b :: tokens =>
    if opened = b then
      (readGroup items).bind fun trees => readTokens stack (before ++ [.group b trees]) tokens
    else none

/-- Read a text. -/
def read (text : String) : Option Tree :=
  (tokens text.toList).bind (readTokens [] [])

end Reading

end ViewGen
