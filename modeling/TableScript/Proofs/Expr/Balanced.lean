import TableScript.Proofs.Expr.Items

namespace TableScript

/-! The tree of a body.  Building takes the phrases of a body into a stack of
open blocks.  The items written in the stack are those taken so far, and its
height counts the headers that still wait for their closing, so a body has a
tree exactly when its phrases are balanced. -/

namespace Phrase

def opens : Phrase → Bool
  | ifHeader _ | forHeader _ _ => true
  | _ => false

def closes : Phrase → Bool
  | close => true
  | _ => false

/-- The phrase contributes an item: its expressions, if it has any, stand. -/
def Lowers (phrase : Phrase) : Prop :=
  ∃ item, Item.ofPhrase phrase = .ok item

/-- With `room` blocks open before them, the phrases never close a block where
none is open. -/
def Covered (room : Nat) (phrases : List Phrase) : Prop :=
  ∀ start, start <+: phrases → start.countP closes ≤ room + start.countP opens

theorem covered_nil (room : Nat) : Covered room [] := by
  intro start begins
  rw [List.prefix_nil.mp begins]
  exact Nat.zero_le _

/-- One phrase leads from `room` open blocks to `later` ones. -/
theorem covered_cons {room later : Nat} {phrase : Phrase} {phrases : List Phrase}
    (height : later + [phrase].countP closes = room + [phrase].countP opens) :
    Covered room (phrase :: phrases) ↔ Covered later phrases := by
  constructor
  · intro covered start begins
    have whole := covered (phrase :: start) (List.cons_prefix_cons.mpr ⟨rfl, begins⟩)
    rw [← List.singleton_append, List.countP_append, List.countP_append] at whole
    omega
  · intro covered start begins
    cases start with
    | nil => exact Nat.zero_le _
    | cons first rest =>
        obtain ⟨same, inner⟩ := List.cons_prefix_cons.mp begins
        subst same
        have shorter := covered rest inner
        rw [← List.singleton_append, List.countP_append, List.countP_append]
        omega

theorem not_covered_close {phrases : List Phrase} : ¬ Covered 0 (close :: phrases) := by
  intro covered
  have first := covered [close] (List.cons_prefix_cons.mpr ⟨rfl, List.nil_prefix⟩)
  have closed : [close].countP closes = 1 := rfl
  have opened : [close].countP opens = 0 := rfl
  omega

theorem lowers_iff_mapM {phrases : List Phrase} :
    (∀ phrase ∈ phrases, phrase.Lowers) ↔ ∃ items, phrases.mapM Item.ofPhrase = .ok items := by
  induction phrases with
  | nil => exact ⟨fun _ => ⟨[], rfl⟩, fun _ _ member => nomatch member⟩
  | cons phrase others continued =>
      rw [List.forall_mem_cons, continued, List.mapM_cons]
      constructor
      · intro ⟨⟨item, stands⟩, items, stand⟩
        exact ⟨item :: items, by rw [stands, stand]; rfl⟩
      · intro ⟨_, stand⟩
        obtain ⟨item, stands, stand⟩ := bind_eq_ok stand
        obtain ⟨items, stand, _⟩ := bind_eq_ok stand
        exact ⟨⟨item, stands⟩, items, stand⟩

end Phrase

namespace Block

open Phrase

/-- A stack with `room` open blocks above its bottom. -/
inductive Standing : Nat → List Block → Prop where
  | bottom (body : List Expr) : Standing 0 [⟨none, body⟩]
  | opened {room : Nat} {outer : List Block} (header : Header) (body : List Expr)
      (below : Standing room outer) : Standing (room + 1) (⟨some header, body⟩ :: outer)

/-- The items taken into a stack, from its bottom to its top. -/
def written : List Block → List Item
  | [] => []
  | ⟨none, body⟩ :: outer => written outer ++ Expr.itemsAll body
  | ⟨some header, body⟩ :: outer => written outer ++ .opening header :: Expr.itemsAll body

theorem Standing.length {room : Nat} {blocks : List Block} (standing : Standing room blocks) :
    blocks.length = room + 1 := by
  induction standing with
  | bottom body => rfl
  | opened header body below continued => rw [List.length_cons, continued]

theorem Standing.add {room : Nat} {blocks : List Block} (standing : Standing room blocks)
    (expr : Expr) :
    ∃ after, Block.add expr blocks = .ok after ∧ Standing room after ∧
      written after = written blocks ++ expr.items := by
  have appended (body : List Expr) :
      Expr.itemsAll (body ++ [expr]) = Expr.itemsAll body ++ expr.items := by
    rw [Expr.itemsAll_append, Expr.itemsAll, Expr.itemsAll, List.append_nil]
  cases standing with
  | bottom body =>
      refine ⟨_, rfl, .bottom _, ?_⟩
      simp only [written, appended, List.append_assoc]
  | opened header body below =>
      refine ⟨_, rfl, .opened header _ below, ?_⟩
      simp only [written, appended, List.append_assoc, List.cons_append]

theorem Standing.close {room : Nat} {blocks : List Block}
    (standing : Standing (room + 1) blocks) :
    ∃ after, Block.close blocks = .ok after ∧ Standing room after ∧
      written after = written blocks ++ [.closing] := by
  cases standing with
  | opened header body below =>
      obtain ⟨after, added, remains, same⟩ := below.add (header.enclose body)
      refine ⟨after, ?_, remains, ?_⟩
      · cases below <;> exact added
      · rw [same]
        cases header <;> simp only [written, Header.enclose, Expr.items, List.append_assoc]

theorem Standing.close_bottom {blocks : List Block} (standing : Standing 0 blocks) :
    Block.close blocks = .error .strayClose := by
  cases standing
  rfl

theorem Standing.finish {room : Nat} {blocks : List Block}
    (standing : Standing (room + 1) blocks) :
    Block.finish blocks = .error (.openBlocks (room + 1)) := by
  cases standing with
  | opened header body below =>
      have height := below.length
      cases below with
      | bottom outer => rfl
      | opened next outer below => simp only [Block.finish, height]

/-- Takes an item into a stack. -/
def put (blocks : List Block) : Item → Except TreeFault (List Block)
  | .opening header => .ok (⟨some header, []⟩ :: blocks)
  | .statement expr => Block.add expr blocks
  | .closing => Block.close blocks

/-- Taking a phrase is finding its item and taking that. -/
theorem take_eq_bind (blocks : List Block) (phrase : Phrase) :
    take blocks phrase = Item.ofPhrase phrase >>= fun item => ofTree (put blocks item) := by
  cases phrase with
  | ifHeader condition =>
      simp only [take, Item.ofPhrase]
      cases Expr.ofPhrase condition <;> rfl
  | forHeader condition increment =>
      simp only [take, Item.ofPhrase]
      cases Expr.ofPhrase condition <;> cases Expr.ofPhrase increment <;> rfl
  | close => rfl
  | _ =>
      simp only [take, Item.ofPhrase, bind_assoc, pure_bind]
      rfl

theorem take_of_item {blocks : List Block} {phrase : Phrase} {item : Item}
    (stands : Item.ofPhrase phrase = .ok item) :
    take blocks phrase = ofTree (put blocks item) := by
  rw [take_eq_bind, stands]
  rfl

/-- Taking one phrase.  The stack takes the item of the phrase, unless the
phrase closes a block and none is open. -/
theorem Standing.take {room : Nat} {blocks : List Block} (standing : Standing room blocks)
    {phrase : Phrase} {item : Item} (stands : Item.ofPhrase phrase = .ok item) :
    (room = 0 ∧ phrase = .close ∧ Block.take blocks phrase = .error (.tree [] .strayClose)) ∨
    ∃ later after, Block.take blocks phrase = .ok after ∧ Standing later after ∧
      later + [phrase].countP closes = room + [phrase].countP opens ∧
      written after = written blocks ++ [item] := by
  rw [take_of_item stands]
  cases phrase with
  | ifHeader condition =>
      obtain ⟨inner, _, same⟩ := bind_eq_ok stands
      cases same
      exact .inr ⟨room + 1, _, rfl, .opened (.branch inner) [] standing, rfl, rfl⟩
  | forHeader condition increment =>
      obtain ⟨first, _, stands⟩ := bind_eq_ok stands
      obtain ⟨second, _, same⟩ := bind_eq_ok stands
      cases same
      exact .inr ⟨room + 1, _, rfl, .opened (.loop first second) [] standing, rfl, rfl⟩
  | close =>
      cases stands
      cases room with
      | zero => exact .inl ⟨rfl, rfl, congrArg ofTree standing.close_bottom⟩
      | succ room =>
          obtain ⟨after, closed, remains, same⟩ := standing.close
          exact .inr ⟨room, after, congrArg ofTree closed, remains, rfl, same⟩
  | _ =>
      obtain ⟨expr, exprStands, same⟩ := bind_eq_ok stands
      cases same
      have single := Expr.items_of_plain (Expr.toPhrase_of_ofPhrase exprStands).2
      obtain ⟨after, added, remains, same⟩ := standing.add expr
      exact .inr ⟨room, after, congrArg ofTree added, remains, rfl, by rw [same, single]⟩

theorem result_takeAll_cons (blocks : List Block) (phrase : Phrase) (others : List Phrase) :
    (takeAll blocks (phrase :: others)).result =
      Block.take blocks phrase >>= fun blocks => (takeAll blocks others).result := by
  simp only [takeAll, Logged.result_bind, Logged.result_note, Logged.result_ofExcept]
  rfl

theorem result_takeAll_append {blocks after : List Block} {start rest : List Phrase}
    (taken : (takeAll blocks start).result = .ok after) :
    (takeAll blocks (start ++ rest)).result = (takeAll after rest).result := by
  induction start generalizing blocks with
  | nil =>
      cases taken
      rfl
  | cons phrase others continued =>
      rw [result_takeAll_cons] at taken
      obtain ⟨next, first, taken⟩ := bind_eq_ok taken
      rw [List.cons_append, result_takeAll_cons, first]
      exact continued taken

/-- Phrases that all stand and are covered are taken, and nothing else happens
to the stack. -/
theorem Standing.takeAll {room : Nat} {blocks : List Block} (standing : Standing room blocks)
    {phrases : List Phrase} {items : List Item}
    (stand : phrases.mapM Item.ofPhrase = .ok items) (covered : Covered room phrases) :
    ∃ later after, (Block.takeAll blocks phrases).result = .ok after ∧ Standing later after ∧
      later + phrases.countP closes = room + phrases.countP opens ∧
      written after = written blocks ++ items := by
  induction phrases generalizing room blocks items with
  | nil =>
      cases stand
      exact ⟨room, blocks, rfl, standing, rfl, (List.append_nil _).symm⟩
  | cons phrase others continued =>
      rw [List.mapM_cons] at stand
      obtain ⟨item, firstStands, stand⟩ := bind_eq_ok stand
      obtain ⟨rest, restStand, same⟩ := bind_eq_ok stand
      cases same
      obtain ⟨empty, closing, _⟩ | ⟨middle, next, first, standing, height, writes⟩ :=
        standing.take firstStands
      · subst empty closing
        exact absurd covered not_covered_close
      · obtain ⟨later, after, taken, remains, heights, whole⟩ :=
          continued standing restStand ((covered_cons height).mp covered)
        refine ⟨later, after, ?_, remains, ?_, ?_⟩
        · rw [result_takeAll_cons, first]
          exact taken
        · rw [← List.singleton_append, List.countP_append, List.countP_append]
          omega
        · rw [whole, writes, List.append_assoc]
          rfl

/-- Nothing else is taken. -/
theorem Standing.of_takeAll {room : Nat} {blocks after : List Block}
    (standing : Standing room blocks) {phrases : List Phrase}
    (taken : (Block.takeAll blocks phrases).result = .ok after) :
    (∃ items, phrases.mapM Item.ofPhrase = .ok items) ∧ Covered room phrases := by
  induction phrases generalizing room blocks with
  | nil => exact ⟨⟨[], rfl⟩, covered_nil room⟩
  | cons phrase others continued =>
      rw [result_takeAll_cons] at taken
      obtain ⟨next, first, taken⟩ := bind_eq_ok taken
      obtain ⟨item, stands, _⟩ := bind_eq_ok ((take_eq_bind blocks phrase).symm.trans first)
      obtain ⟨_, _, refused⟩ | ⟨middle, reached, accepted, standing, height, _⟩ :=
        standing.take stands
      · rw [refused] at first
        cases first
      · rw [accepted] at first
        cases first
        obtain ⟨⟨items, stand⟩, covered⟩ := continued standing taken
        refine ⟨⟨item :: items, ?_⟩, (covered_cons height).mpr covered⟩
        rw [List.mapM_cons, stands, stand]
        rfl

/-- The first closing without a block stops the building, if all phrases before
it stand. -/
theorem Standing.overclosed {room : Nat} {blocks : List Block} (standing : Standing room blocks)
    {start : List Phrase} (rest : List Phrase) {items : List Item}
    (stand : start.mapM Item.ofPhrase = .ok items)
    (excess : room + start.countP opens < start.countP closes) :
    (Block.takeAll blocks (start ++ rest)).result = .error (.tree [] .strayClose) := by
  induction start generalizing room blocks items with
  | nil => cases excess
  | cons phrase others continued =>
      rw [List.mapM_cons] at stand
      obtain ⟨item, firstStands, stand⟩ := bind_eq_ok stand
      obtain ⟨later, restStand, _⟩ := bind_eq_ok stand
      rw [← List.singleton_append, List.countP_append, List.countP_append] at excess
      rw [List.cons_append, result_takeAll_cons]
      obtain ⟨_, _, refused⟩ | ⟨middle, next, first, standing, height, _⟩ :=
        standing.take firstStands
      · rw [refused]
        rfl
      · rw [first]
        exact continued standing restStand (by omega)

/-- A header, the phrases of its body and the closing add the block to the one
around it, if the phrases of the body add the body to the new block. -/
theorem takeAll_block (header : Header) (around : Block) (outer : List Block)
    (rest : List Phrase) {inner : List Expr}
    (added : ∀ later, (takeAll (⟨some header, []⟩ :: around :: outer)
        (Expr.flattenAll inner ++ later)).result =
      (takeAll (⟨some header, inner⟩ :: around :: outer) later).result) :
    (takeAll (⟨some header, []⟩ :: around :: outer)
        (Expr.flattenAll inner ++ .close :: rest)).result =
      (takeAll (⟨around.header, around.body ++ [header.enclose inner]⟩ :: outer) rest).result := by
  rw [added, result_takeAll_cons]
  rfl

mutual

/-- The phrases of a statement add the statement to the innermost block. -/
theorem takeAll_flatten (expr : Expr) (stated : expr.stated = true) (header : Option Header)
    (body : List Expr) (outer : List Block) (rest : List Phrase) :
    (takeAll (⟨header, body⟩ :: outer) (expr.flatten ++ rest)).result =
      (takeAll (⟨header, body ++ [expr]⟩ :: outer) rest).result := by
  cases expr with
  | branch condition inner =>
      rw [Expr.stated, Bool.and_eq_true] at stated
      rw [Expr.flatten, List.cons_append, List.cons_append, List.append_assoc,
        result_takeAll_cons, take, Expr.ofPhrase_toPhrase stated.1]
      exact takeAll_block (.branch condition) ⟨header, body⟩ outer rest
        (takeAll_flattenAll inner stated.2 _ [] _)
  | loop condition increment inner =>
      rw [Expr.stated, Bool.and_eq_true, Bool.and_eq_true] at stated
      rw [Expr.flatten, List.cons_append, List.cons_append, List.append_assoc,
        result_takeAll_cons, take, Expr.ofPhrase_toPhrase stated.1.1,
        Expr.ofPhrase_toPhrase stated.1.2]
      exact takeAll_block (.loop condition increment) ⟨header, body⟩ outer rest
        (takeAll_flattenAll inner stated.2 _ [] _)
  | _ =>
      -- All others have a single phrase, which stands for them.
      simp only [Expr.stated] at stated
      simp only [Expr.flatten, List.cons_append, List.nil_append, result_takeAll_cons,
        take_of_item (Item.ofPhrase_of_expr (Expr.ofPhrase_toPhrase stated))]
      rfl

theorem takeAll_flattenAll (exprs : List Expr) (stated : Expr.statedAll exprs = true)
    (header : Option Header) (body : List Expr) (outer : List Block) (rest : List Phrase) :
    (takeAll (⟨header, body⟩ :: outer) (Expr.flattenAll exprs ++ rest)).result =
      (takeAll (⟨header, body ++ exprs⟩ :: outer) rest).result := by
  cases exprs with
  | nil => rw [Expr.flattenAll, List.nil_append, List.append_nil]
  | cons expr others =>
      rw [Expr.statedAll, Bool.and_eq_true] at stated
      rw [Expr.flattenAll, List.append_assoc, takeAll_flatten expr stated.1,
        takeAll_flattenAll others stated.2, List.append_assoc]
      rfl

end

end Block

namespace Expr

open Phrase Block

theorem result_build (phrases : List Phrase) :
    (build phrases).result =
      (takeAll bottom phrases).result >>= fun blocks => ofTree (finish blocks) := by
  simp only [build, Logged.result_bind, Logged.result_ofExcept]

/-- The tree of balanced phrases has their items. -/
theorem build_of_balanced {phrases : List Phrase} {items : List Item}
    (stand : phrases.mapM Item.ofPhrase = .ok items) (covered : Covered 0 phrases)
    (even : phrases.countP closes = phrases.countP opens) :
    ∃ forest, (build phrases).result = .ok forest ∧ itemsAll forest = items := by
  obtain ⟨later, after, taken, standing, height, whole⟩ :=
    (Standing.bottom []).takeAll stand covered
  have closed : later = 0 := by omega
  subst closed
  cases standing with
  | bottom forest =>
      refine ⟨forest, ?_, ?_⟩
      · rw [result_build, bottom, taken]
        rfl
      · simpa only [written, itemsAll, List.nil_append] using whole

theorem build_open {phrases : List Phrase} {items : List Item} {count : Nat}
    (stand : phrases.mapM Item.ofPhrase = .ok items) (covered : Covered 0 phrases)
    (still : phrases.countP opens = phrases.countP closes + count) (some : 0 < count) :
    (build phrases).result = .error (.tree [] (.openBlocks count)) := by
  obtain ⟨later, after, taken, standing, height, _⟩ :=
    (Standing.bottom []).takeAll stand covered
  obtain ⟨room, same⟩ := Nat.exists_eq_succ_of_ne_zero (Nat.ne_of_gt some)
  have remain : later = room + 1 := by omega
  subst remain same
  rw [result_build, bottom, taken]
  exact congrArg ofTree standing.finish

theorem balanced_of_build {phrases : List Phrase} {forest : List Expr}
    (built : (build phrases).result = .ok forest) :
    phrases.mapM Item.ofPhrase = .ok (itemsAll forest) ∧ Covered 0 phrases ∧
      phrases.countP closes = phrases.countP opens := by
  have taken := built
  rw [result_build] at taken
  obtain ⟨after, taken, _⟩ := bind_eq_ok taken
  obtain ⟨⟨items, stand⟩, covered⟩ := (Standing.bottom []).of_takeAll taken
  have bound := covered phrases List.prefix_rfl
  -- With fewer closings than headers, blocks would still be open.
  by_cases even : phrases.countP closes = phrases.countP opens
  · obtain ⟨other, built', same⟩ := build_of_balanced stand covered even
    rw [built] at built'
    cases built'
    exact ⟨by rw [stand, same], covered, even⟩
  · have still : phrases.countP opens =
        phrases.countP closes + (phrases.countP opens - phrases.countP closes) := by omega
    have refused := build_open stand covered still (by omega)
    rw [built] at refused
    cases refused

theorem build_flattenAll {forest : List Expr} (stated : statedAll forest = true) :
    (build (flattenAll forest)).result = .ok forest := by
  have taken := takeAll_flattenAll forest stated none [] [] []
  rw [List.append_nil] at taken
  rw [result_build, bottom, taken]
  rfl

theorem build_unlowered {start rest : List Phrase} {items : List Item} {phrase : Phrase}
    {error : Error} (stand : start.mapM Item.ofPhrase = .ok items) (covered : Covered 0 start)
    (refused : Item.ofPhrase phrase = .error error) :
    (build (start ++ phrase :: rest)).result = .error error := by
  obtain ⟨_, after, taken, _⟩ := (Standing.bottom []).takeAll stand covered
  rw [result_build, bottom, result_takeAll_append taken, result_takeAll_cons, take_eq_bind,
    refused]
  rfl

/-- A body has a tree exactly when its phrases stand and are balanced, and the
tree holds what the phrases stand for, in their order; a tree in which blocks
are statements is built from its own phrases, which are the only ones for its
expressions.  Otherwise the first fault from left to right is the result: a
closing without a block, a phrase that does not stand, or, after all phrases,
the number of blocks that are still open. -/
theorem build_exactly_balanced :
    (∀ phrases,
      (∃ forest, (build phrases).result = .ok forest) ↔
        (∀ phrase ∈ phrases, phrase.Lowers) ∧ Covered 0 phrases ∧
          phrases.countP closes = phrases.countP opens) ∧
    (∀ phrases forest, (build phrases).result = .ok forest →
      phrases.mapM Item.ofPhrase = .ok (itemsAll forest) ∧ flattenAll forest = phrases) ∧
    (∀ forest, statedAll forest = true → (build (flattenAll forest)).result = .ok forest) ∧
    (∀ expr, expr.plain = true → ∀ phrase, ofPhrase phrase = .ok expr ↔ phrase = expr.toPhrase) ∧
    (∀ phrases count, (∀ phrase ∈ phrases, phrase.Lowers) → Covered 0 phrases →
      phrases.countP opens = phrases.countP closes + count → 0 < count →
      (build phrases).result = .error (.tree [] (.openBlocks count)) ∧
        (TreeFault.openBlocks count).message = s!"Unterminated block ({count} still open)") ∧
    (∀ start rest, (∀ phrase ∈ start, phrase.Lowers) →
      start.countP opens < start.countP closes →
      (build (start ++ rest)).result = .error (.tree [] .strayClose) ∧
        TreeFault.strayClose.message = "Unexpected terminator (whitespace overflow)") ∧
    (∀ start phrase rest error, (∀ phrase ∈ start, phrase.Lowers) → Covered 0 start →
      Item.ofPhrase phrase = .error error →
      (build (start ++ phrase :: rest)).result = .error error) := by
  refine ⟨?_, ?_, ?_, ?_, ?_, ?_, ?_⟩
  · intro phrases
    constructor
    · intro ⟨forest, built⟩
      obtain ⟨stand, covered, even⟩ := balanced_of_build built
      exact ⟨lowers_iff_mapM.mpr ⟨_, stand⟩, covered, even⟩
    · intro ⟨lower, covered, even⟩
      obtain ⟨items, stand⟩ := lowers_iff_mapM.mp lower
      obtain ⟨forest, built, _⟩ := build_of_balanced stand covered even
      exact ⟨forest, built⟩
  · intro phrases forest built
    have stand := (balanced_of_build built).1
    exact ⟨stand, by rw [← map_toPhrase_itemsAll, Item.map_toPhrase stand]⟩
  · intro forest stated
    exact build_flattenAll stated
  · intro expr free phrase
    rw [ofPhrase_eq_ok_iff, and_iff_right free]
  · intro phrases count lower covered still some
    obtain ⟨items, stand⟩ := lowers_iff_mapM.mp lower
    exact ⟨build_open stand covered still some, rfl⟩
  · intro start rest lower excess
    obtain ⟨items, stand⟩ := lowers_iff_mapM.mp lower
    have stopped := (Standing.bottom []).overclosed rest stand (by omega)
    refine ⟨?_, rfl⟩
    rw [result_build, bottom, stopped]
    rfl
  · intro start phrase rest error lower covered refused
    obtain ⟨items, stand⟩ := lowers_iff_mapM.mp lower
    exact build_unlowered stand covered refused

/-- A loop that holds a branch, and a statement after it. -/
def nestedBlocks : List Expr :=
  [.loop (.compare .less (.register "0") (.literal "3"))
      (.setRegister "0" (.arithmetic .add (.register "0") (.literal "1")))
      [.branch (.compare .equal (.register "0") (.literal "1"))
          [.builtin "out" [.literal "one"]],
        .builtin "out" [.register "0"]],
    .literal "done"]

/-- The tree is built from its phrases, and each kind of fault has a body. -/
theorem build_exactly_balanced_nested :
    (statedAll nestedBlocks = true ∧
      (build (flattenAll nestedBlocks)).result = .ok nestedBlocks ∧
      (flattenAll nestedBlocks).mapM Item.ofPhrase = .ok (itemsAll nestedBlocks)) ∧
    (plain (.reference "0") = true ∧
      (ofPhrase (.reference "0") = .ok (.reference "0") ↔
        Phrase.reference "0" = toPhrase (.reference "0"))) ∧
    (Covered 0 [.ifHeader (.literal "true"), .literal "x"] ∧
      (build [.ifHeader (.literal "true"), .literal "x"]).result =
        .error (.tree [] (.openBlocks 1))) ∧
    (build [.literal "x", .close, .assign (.parameter "a") (.literal "1")]).result =
      .error (.tree [] .strayClose) ∧
    (build [.literal "x", .assign (.parameter "a") (.literal "1"), .close]).result =
      .error (.bind [] (.assignedParameter "a")) := by
  obtain ⟨_, lossless, rebuilt, unique, opened, overclosed, unlowered⟩ := build_exactly_balanced
  have stated : statedAll nestedBlocks = true := rfl
  have single : Covered 0 [.literal "x"] :=
    (covered_cons (show 0 + _ = 0 + _ from rfl)).mpr (covered_nil 0)
  have covered : Covered 0 [.ifHeader (.literal "true"), .literal "x"] :=
    (covered_cons (show 1 + _ = 0 + _ from rfl)).mpr
      ((covered_cons (show 1 + _ = 1 + _ from rfl)).mpr (covered_nil 1))
  have lowers (phrases : List Phrase) (items : List Item)
      (stand : phrases.mapM Item.ofPhrase = .ok items) : ∀ phrase ∈ phrases, phrase.Lowers :=
    lowers_iff_mapM.mpr ⟨items, stand⟩
  refine ⟨⟨stated, rebuilt _ stated, (lossless _ _ (rebuilt _ stated)).1⟩,
    ⟨rfl, unique _ rfl _⟩, ⟨covered, ?_⟩, ?_, ?_⟩
  · exact (opened _ 1 (lowers _ _ rfl) covered rfl Nat.one_pos).1
  · exact (overclosed [.literal "x", .close] _ (lowers _ _ rfl) Nat.one_pos).1
  · exact unlowered [.literal "x"] _ _ _ (lowers _ _ rfl) single rfl

end Expr

end TableScript
