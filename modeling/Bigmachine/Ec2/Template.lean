import Bigmachine.Ec2.Dedent

/-!
# The templates of the user data

`tmpl` removes the indentation of a template, parses what is left and executes it. The package that
it uses is html/template, which escapes the strings that it inserts for HTML.

Of the language of templates there is what the templates of the user data are written in: fields,
numbers, the length of a field, `if` on a field and `range` over a field with one variable for the
items.
-/

namespace Bigmachine.Ec2.Template

/-! ## Parsing -/

def lbrace : Char := Char.ofNat 0x7b

def rbrace : Char := Char.ofNat 0x7d

inductive Piece
  | text (s : String)
  | action (s : List Char) -- what is between the braces
  deriving DecidableEq, Repr

/-- The text in pieces; `acc` are the characters of the current piece in reverse. There is no result
when an action is not closed. -/
def pieces (inside : Bool) (acc : List Char) : List Char → Option (List Piece)
  | [] => if inside then none else some [.text (String.ofList acc.reverse)]
  | [c] => if inside then none else some [.text (String.ofList (c :: acc).reverse)]
  | c :: c' :: cs =>
    if inside then
      if c = rbrace ∧ c' = rbrace then (pieces false [] cs).map (.action acc.reverse :: ·)
      else pieces true (c :: acc) (c' :: cs)
    else
      if c = lbrace ∧ c' = lbrace then
        (pieces true [] cs).map (.text (String.ofList acc.reverse) :: ·)
      else pieces false (c :: acc) (c' :: cs)

inductive Open
  | cond (name : String)
  | range (name : String)
  deriving DecidableEq, Repr

inductive Action
  | field (name : String)
  | number (n : Nat)
  | len (name : String)
  | item
  | block (o : Open)
  | close
  deriving DecidableEq, Repr

def fieldName : List Char → Option String
  | '.' :: name => if name.all Char.isAlpha then some (String.ofList name) else none
  | _ => none

def numeral (ds : List Char) : Option Nat :=
  if ds ≠ [] ∧ ds.all Char.isDigit then some (ds.foldl (fun n d => 10 * n + (d.toNat - 48)) 0)
  else none

/-- The words of an action, which are separated by spaces. -/
def words (s : List Char) : List (List Char) := (s.splitOn ' ').filter (· ≠ [])

def parseAction (s : List Char) : Option Action :=
  match words s with
  | [w] =>
    if w = "end".toList then some .close
    else if w = "$name".toList then some .item
    else
      match w.splitOn '|' with
      | [w] => ((fieldName w).map .field).or ((numeral w).map .number)
      | [w, f] => if f = "len".toList then (fieldName w).map .len else none
      | _ => none
  | [w, w'] => if w = "if".toList then (fieldName w').map (.block ∘ .cond) else none
  | [w, blank, item, assign, w'] =>
    if w = "range".toList ∧ blank = "$_,".toList ∧ item = "$name".toList ∧ assign = ":=".toList
    then (fieldName w').map (.block ∘ .range)
    else none
  | _ => none

inductive Node
  | text (s : String)
  | field (name : String)
  | number (n : Nat)
  | len (name : String)
  | item
  | cond (name : String) (body : List Node)
  | range (name : String) (body : List Node)

def Open.node (body : List Node) : Open → Node
  | cond name => .cond name body
  | range name => .range name body

/-- The nodes of the pieces; `outer` are the blocks that are open, with the nodes before them, and
`nodes` are those of the innermost one. -/
def parse (outer : List (Open × List Node)) (nodes : List Node) :
    List Piece → Option (List Node)
  | [] => if outer = [] then some nodes else none
  | .text s :: ps => parse outer (nodes ++ [.text s]) ps
  | .action s :: ps =>
    match parseAction s, outer with
    | some (.field name), _ => parse outer (nodes ++ [.field name]) ps
    | some (.number n), _ => parse outer (nodes ++ [.number n]) ps
    | some (.len name), _ => parse outer (nodes ++ [.len name]) ps
    | some .item, _ => parse outer (nodes ++ [.item]) ps
    | some (.block o), _ => parse ((o, nodes) :: outer) [] ps
    | some .close, (o, before) :: outer => parse outer (before ++ [o.node nodes]) ps
    | some .close, [] => none
    | none, _ => none

/-! ## Execution -/

/-- What html/template inserts for a character in a text. -/
def escapeChar (c : Char) : List Char :=
  if c = '&' then "&amp;".toList
  else if c = '<' then "&lt;".toList
  else if c = '>' then "&gt;".toList
  else if c = '+' then "&#43;".toList
  else if c = Char.ofNat 39 then "&#39;".toList -- an apostrophe
  else if c = Char.ofNat 34 then "&#34;".toList -- a quotation mark
  else [c]

def escape (s : String) : String := String.ofList (s.toList.flatMap escapeChar)

inductive Value
  | string (s : String)
  | int (n : Nat)
  | bool (b : Bool)
  | strings (l : List String)
  deriving DecidableEq, Repr

abbrev Args := List (String × Value)

mutual

/-- What a node is replaced by, for the current item of the innermost `range`. -/
def execNode (args : Args) (item : Option String) : Node → Option String
  | .text s => some s
  | .field name =>
    match args.lookup name with
    | some (.string s) => some (escape s)
    | some (.int n) => some (toString n)
    | _ => none
  | .number n => some (toString n)
  | .len name =>
    match args.lookup name with
    | some (.strings l) => some (toString l.length)
    | _ => none
  | .item => item.map escape
  | .cond name body =>
    match args.lookup name with
    | some (.bool true) => execNodes args item body
    | some (.bool false) => some ""
    | _ => none
  | .range name body =>
    match args.lookup name with
    | some (.strings l) => (l.mapM fun x => execNodes args (some x) body).map String.join
    | _ => none

def execNodes (args : Args) (item : Option String) : List Node → Option String
  | [] => some ""
  | node :: nodes =>
    match execNode args item node, execNodes args item nodes with
    | some s, some s' => some (s ++ s')
    | _, _ => none

end

inductive Failure
  | dedent (p : Panic)
  | parse
  | exec
  deriving DecidableEq, Repr

/-- What is executed: the template without its indentation, parsed. -/
def template (text : List Char) : Except Failure (List Node) :=
  match dedent text with
  | .error p => .error (.dedent p)
  | .ok lines =>
    match (pieces false [] (['\n'].intercalate lines)).bind (parse [] []) with
    | none => .error .parse
    | some nodes => .ok nodes

def tmpl (text : String) (args : Args) : Except Failure String :=
  match template text.toList with
  | .error e => .error e
  | .ok nodes =>
    match execNodes args none nodes with
    | none => .error .exec
    | some s => .ok s

theorem tmpl_ok {text s : String} {args : Args} {nodes : List Node}
    (hparse : template text.toList = .ok nodes) (hexec : execNodes args none nodes = some s) :
    tmpl text args = .ok s := by
  rw [tmpl, hparse]
  simp only [hexec]

/-! ## Strings that are inserted as they are -/

/-- The characters that are escaped. -/
def special : List Char := ['&', '<', '>', '+', Char.ofNat 39, Char.ofNat 34]

/-- The string has none of the characters that are escaped. -/
def Plain (s : String) : Prop := ∀ c ∈ s.toList, c ∉ special

instance (s : String) : Decidable (Plain s) := List.decidableBAll _ s.toList

theorem escapeChar_of_notMem {c : Char} (h : c ∉ special) : escapeChar c = [c] := by
  simp only [special, List.mem_cons, List.not_mem_nil, or_false, not_or] at h
  obtain ⟨h₁, h₂, h₃, h₄, h₅, h₆⟩ := h
  simp only [escapeChar, h₁, h₂, h₃, h₄, h₅, h₆, if_false]

theorem escapeChar_of_mem {c : Char} (h : c ∈ special) : 2 ≤ (escapeChar c).length := by
  simp only [special, List.mem_cons, List.not_mem_nil, or_false] at h
  rcases h with rfl | rfl | rfl | rfl | rfl | rfl <;> decide

theorem length_le_escape (cs : List Char) : cs.length ≤ (cs.flatMap escapeChar).length := by
  induction cs with
  | nil => exact Nat.le_refl 0
  | cons c cs ih =>
    rw [List.flatMap_cons, List.length_append, List.length_cons]
    by_cases hc : c ∈ special
    · have := escapeChar_of_mem hc
      omega
    · rw [escapeChar_of_notMem hc, List.length_singleton]
      omega

/-- Escaping makes a string longer, unless there is nothing to escape. -/
theorem flatMap_escapeChar_eq_iff (cs : List Char) :
    cs.flatMap escapeChar = cs ↔ ∀ c ∈ cs, c ∉ special := by
  induction cs with
  | nil => simp
  | cons c cs ih =>
    rw [List.flatMap_cons, List.forall_mem_cons]
    constructor
    · intro h
      have hc : c ∉ special := by
        intro hc
        have hlong := escapeChar_of_mem hc
        have hrest := length_le_escape cs
        have := congrArg List.length h
        rw [List.length_append, List.length_cons] at this
        omega
      rw [escapeChar_of_notMem hc] at h
      exact ⟨hc, ih.mp (List.cons.inj h).2⟩
    · rintro ⟨hc, hcs⟩
      rw [escapeChar_of_notMem hc, ih.mpr hcs]
      rfl

theorem escape_eq_iff (s : String) : escape s = s ↔ Plain s := by
  rw [← String.toList_inj, escape, String.toList_ofList]
  exact flatMap_escapeChar_eq_iff s.toList

end Bigmachine.Ec2.Template
