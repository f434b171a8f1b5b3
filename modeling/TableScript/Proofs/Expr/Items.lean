import TableScript.Expr.Block
import TableScript.Proofs.Phrase.Grammar

namespace TableScript

/-! What the phrases of a body stand for, one by one.  A phrase stands for at
most one expression, and an expression without blocks is stood for by exactly
one phrase; an item is what a phrase contributes to the tree of a body. -/

namespace Expr

mutual

/-- No block occurs in the expression, at any depth. -/
def plain : Expr → Bool
  | literal _ | read _ | register _ | parameter _ | reference _ => true
  | write _ value | setRegister _ value | append _ value => plain value
  | element _ key => plain key
  | arithmetic _ left right | concat left right | compare _ left right =>
      plain left && plain right
  | call _ arguments | builtin _ arguments => plainAll arguments
  | branch _ _ | loop _ _ _ => false

def plainAll : List Expr → Bool
  | [] => true
  | expr :: others => plain expr && plainAll others

end

mutual

/-- Blocks occur in the expression only as statements: it may be a block itself,
and the bodies of blocks may hold blocks, but no condition, increment or other
part of an expression does. -/
def stated : Expr → Bool
  | branch condition body => plain condition && statedAll body
  | loop condition increment body => plain condition && plain increment && statedAll body
  | expr => plain expr

def statedAll : List Expr → Bool
  | [] => true
  | expr :: others => stated expr && statedAll others

end

theorem assign_eq_ok {target : Target} {value expr : Expr}
    (assigned : assign target value = .ok expr) :
    expr.toPhrase = .assign target value.toPhrase ∧ expr.plain = value.plain := by
  cases target with
  | entry index | register index | append index =>
      cases assigned
      exact ⟨by rw [toPhrase], by rw [plain]⟩
  | parameter name => cases assigned

mutual

/-- The expression a phrase stands for holds no block and tells the phrase. -/
theorem toPhrase_of_ofPhrase {phrase : Phrase} {expr : Expr}
    (stands : ofPhrase phrase = .ok expr) : expr.toPhrase = phrase ∧ expr.plain = true := by
  cases phrase with
  | literal value | entry index | register index | parameter name | reference index =>
      rw [ofPhrase] at stands
      cases stands
      exact ⟨by rw [toPhrase], by rw [plain]⟩
  | element index key =>
      rw [ofPhrase] at stands
      obtain ⟨inner, innerStands, same⟩ := bind_eq_ok stands
      cases same
      obtain ⟨written, free⟩ := toPhrase_of_ofPhrase innerStands
      exact ⟨by rw [toPhrase, written], by rw [plain, free]⟩
  | assign target value =>
      rw [ofPhrase] at stands
      obtain ⟨inner, innerStands, assigned⟩ := bind_eq_ok stands
      obtain ⟨written, free⟩ := toPhrase_of_ofPhrase innerStands
      obtain ⟨whole, same⟩ := assign_eq_ok assigned
      exact ⟨by rw [whole, written], by rw [same, free]⟩
  | arithmetic op left right | compare op left right | concat left right =>
      rw [ofPhrase] at stands
      obtain ⟨first, firstStands, stands⟩ := bind_eq_ok stands
      obtain ⟨second, secondStands, same⟩ := bind_eq_ok stands
      cases same
      obtain ⟨leftWritten, leftFree⟩ := toPhrase_of_ofPhrase firstStands
      obtain ⟨rightWritten, rightFree⟩ := toPhrase_of_ofPhrase secondStands
      exact ⟨by rw [toPhrase, leftWritten, rightWritten],
        by rw [plain, leftFree, rightFree, Bool.and_self]⟩
  | call callee arguments | builtin name arguments =>
      rw [ofPhrase] at stands
      obtain ⟨inner, innerStand, same⟩ := bind_eq_ok stands
      cases same
      obtain ⟨written, free⟩ := toPhrases_of_ofPhrases innerStand
      exact ⟨by rw [toPhrase, written], by rw [plain, free]⟩
  | ifHeader condition | forHeader condition increment | close =>
      rw [ofPhrase] at stands
      cases stands

theorem toPhrases_of_ofPhrases {phrases : List Phrase} {exprs : List Expr}
    (stand : ofPhrases phrases = .ok exprs) :
    toPhrases exprs = phrases ∧ plainAll exprs = true := by
  cases phrases with
  | nil =>
      rw [ofPhrases] at stand
      cases stand
      exact ⟨by rw [toPhrases], by rw [plainAll]⟩
  | cons phrase others =>
      rw [ofPhrases] at stand
      obtain ⟨first, firstStands, stand⟩ := bind_eq_ok stand
      obtain ⟨rest, restStand, same⟩ := bind_eq_ok stand
      cases same
      obtain ⟨firstWritten, firstFree⟩ := toPhrase_of_ofPhrase firstStands
      obtain ⟨restWritten, restFree⟩ := toPhrases_of_ofPhrases restStand
      exact ⟨by rw [toPhrases, firstWritten, restWritten],
        by rw [plainAll, firstFree, restFree, Bool.and_self]⟩

end

mutual

theorem ofPhrase_toPhrase {expr : Expr} (free : expr.plain = true) :
    ofPhrase expr.toPhrase = .ok expr := by
  cases expr with
  | literal value | read index | register index | parameter name | reference index =>
      rw [toPhrase, ofPhrase]
  | write index value | setRegister index value | append index value =>
      rw [plain] at free
      rw [toPhrase, ofPhrase, ofPhrase_toPhrase free]
      rfl
  | element index key =>
      rw [plain] at free
      rw [toPhrase, ofPhrase, ofPhrase_toPhrase free]
      rfl
  | arithmetic op left right | concat left right | compare op left right =>
      rw [plain, Bool.and_eq_true] at free
      rw [toPhrase, ofPhrase, ofPhrase_toPhrase free.1, ofPhrase_toPhrase free.2]
      rfl
  | call callee arguments | builtin name arguments =>
      rw [plain] at free
      rw [toPhrase, ofPhrase, ofPhrases_toPhrases free]
      rfl
  | branch condition body | loop condition increment body =>
      rw [plain] at free
      cases free

theorem ofPhrases_toPhrases {exprs : List Expr} (free : plainAll exprs = true) :
    ofPhrases (toPhrases exprs) = .ok exprs := by
  cases exprs with
  | nil => rw [toPhrases, ofPhrases]
  | cons expr others =>
      rw [plainAll, Bool.and_eq_true] at free
      rw [toPhrases, ofPhrases, ofPhrase_toPhrase free.1, ofPhrases_toPhrases free.2]
      rfl

end

/-- A phrase stands for an expression exactly when it is the phrase of that
expression, and only expressions without blocks have one. -/
theorem ofPhrase_eq_ok_iff {phrase : Phrase} {expr : Expr} :
    ofPhrase phrase = .ok expr ↔ expr.plain = true ∧ phrase = expr.toPhrase := by
  constructor
  · intro stands
    obtain ⟨written, free⟩ := toPhrase_of_ofPhrase stands
    exact ⟨free, written.symm⟩
  · intro ⟨free, same⟩
    rw [same]
    exact ofPhrase_toPhrase free

end Expr

/-- What a phrase contributes to the tree of a body. -/
inductive Item where
  | opening (header : Header)
  | statement (expr : Expr)
  | closing

namespace Item

/-- The item of a phrase.  Of a header, the condition comes first. -/
def ofPhrase : Phrase → Except Error Item
  | .ifHeader condition => do
      let condition ← Expr.ofPhrase condition
      return .opening (.branch condition)
  | .forHeader condition increment => do
      let condition ← Expr.ofPhrase condition
      let increment ← Expr.ofPhrase increment
      return .opening (.loop condition increment)
  | .close => .ok .closing
  | phrase => do
      let expr ← Expr.ofPhrase phrase
      return .statement expr

def toPhrase : Item → Phrase
  | opening (.branch condition) => .ifHeader condition.toPhrase
  | opening (.loop condition increment) => .forHeader condition.toPhrase increment.toPhrase
  | statement expr => expr.toPhrase
  | closing => .close

theorem ofPhrase_of_expr {phrase : Phrase} {expr : Expr}
    (stands : Expr.ofPhrase phrase = .ok expr) : ofPhrase phrase = .ok (.statement expr) := by
  cases phrase with
  | ifHeader condition | forHeader condition increment | close =>
      rw [Expr.ofPhrase] at stands
      cases stands
  | _ =>
      simp only [ofPhrase, stands]
      rfl

theorem toPhrase_of_ofPhrase {phrase : Phrase} {item : Item}
    (stands : ofPhrase phrase = .ok item) : item.toPhrase = phrase := by
  cases phrase with
  | ifHeader condition =>
      obtain ⟨inner, innerStands, same⟩ := bind_eq_ok stands
      cases same
      rw [toPhrase, (Expr.toPhrase_of_ofPhrase innerStands).1]
  | forHeader condition increment =>
      obtain ⟨first, firstStands, stands⟩ := bind_eq_ok stands
      obtain ⟨second, secondStands, same⟩ := bind_eq_ok stands
      cases same
      rw [toPhrase, (Expr.toPhrase_of_ofPhrase firstStands).1,
        (Expr.toPhrase_of_ofPhrase secondStands).1]
  | close =>
      cases stands
      rfl
  | _ =>
      obtain ⟨expr, exprStands, same⟩ := bind_eq_ok stands
      cases same
      exact (Expr.toPhrase_of_ofPhrase exprStands).1

/-- The phrases are those of the items that they stand for. -/
theorem map_toPhrase {phrases : List Phrase} {items : List Item}
    (stand : phrases.mapM ofPhrase = .ok items) : items.map toPhrase = phrases := by
  induction phrases generalizing items with
  | nil =>
      cases stand
      rfl
  | cons phrase others continued =>
      rw [List.mapM_cons] at stand
      obtain ⟨first, firstStands, stand⟩ := bind_eq_ok stand
      obtain ⟨rest, restStand, same⟩ := bind_eq_ok stand
      cases same
      rw [List.map_cons, toPhrase_of_ofPhrase firstStands, continued restStand]

end Item

namespace Expr

mutual

/-- The items of an expression that stands as a statement: a block is its
header, the items of its body and the closing. -/
def items : Expr → List Item
  | branch condition body => .opening (.branch condition) :: itemsAll body ++ [.closing]
  | loop condition increment body =>
      .opening (.loop condition increment) :: itemsAll body ++ [.closing]
  | expr => [.statement expr]

def itemsAll : List Expr → List Item
  | [] => []
  | expr :: others => items expr ++ itemsAll others

end

theorem items_of_plain {expr : Expr} (free : expr.plain = true) :
    expr.items = [.statement expr] := by
  cases expr with
  | branch condition body | loop condition increment body =>
      rw [plain] at free
      cases free
  | _ => simp only [items]

theorem itemsAll_append (first second : List Expr) :
    itemsAll (first ++ second) = itemsAll first ++ itemsAll second := by
  induction first with
  | nil => rfl
  | cons expr others continued =>
      rw [List.cons_append, itemsAll, itemsAll, continued, List.append_assoc]

mutual

theorem map_toPhrase_items (expr : Expr) : expr.items.map Item.toPhrase = expr.flatten := by
  cases expr with
  | branch condition body | loop condition increment body =>
      simp only [items, flatten, List.map_append, List.map_cons, List.map_nil, Item.toPhrase,
        map_toPhrase_itemsAll body]
  | _ => simp only [items, flatten, List.map_cons, List.map_nil, Item.toPhrase]

theorem map_toPhrase_itemsAll (exprs : List Expr) :
    (itemsAll exprs).map Item.toPhrase = flattenAll exprs := by
  cases exprs with
  | nil => rfl
  | cons expr others =>
      rw [itemsAll, flattenAll, List.map_append, map_toPhrase_items expr,
        map_toPhrase_itemsAll others]

end

end Expr

end TableScript
