import Yeah.Yaml.Scalar
import Mathlib.Data.List.Nodup

namespace Yeah.Yaml

/-- A line with the number of blanks before it. -/
abbrev Line := Nat × List Char

mutual

/-- A document in block style. -/
inductive Node
  | scalar (r : Raw)
  | map (fields : Fields)
  | seq (items : Items)

inductive Fields
  | nil
  | cons (key : Raw) (value : Node) (rest : Fields)

inductive Items
  | nil
  | cons (value : Node) (rest : Items)

end

namespace Fields

def toList : Fields → List (Raw × Node)
  | nil => []
  | cons k v fs => (k, v) :: fs.toList

def ofList : List (Raw × Node) → Fields
  | [] => nil
  | e :: es => cons e.1 e.2 (ofList es)

@[simp] theorem toList_ofList (es : List (Raw × Node)) : (ofList es).toList = es := by
  induction es with
  | nil => rfl
  | cons e es ih => rw [ofList, toList, ih]

end Fields

namespace Items

def toList : Items → List Node
  | nil => []
  | cons v is => v :: is.toList

def ofList : List Node → Items
  | [] => nil
  | v :: vs => cons v (ofList vs)

@[simp] theorem toList_ofList (vs : List Node) : (ofList vs).toList = vs := by
  induction vs with
  | nil => rfl
  | cons v vs ih => rw [ofList, toList, ih]

end Items

/-! ### Reading -/

/-- A block: its lines grouped under those that are not indented further than `n`. -/
def group (n : Nat) : List Line → List Line × List (Line × List Line)
  | [] => ([], [])
  | l :: ls =>
      let g := group n ls
      if n < l.1 then (l :: g.1, g.2) else ([], (l, g.1) :: g.2)

/-- A plain key ends at the first colon before a blank or the end. -/
def splitColon : List Char → Option (List Char × List Char)
  | [] => none
  | c :: cs =>
      if c = ':' ∧ cs.head?.all (· = ' ') then some ([], cs) else (splitColon cs).map fun p => (c :: p.1, p.2)

def readKey : List Char → Option (Raw × List Char)
  | [] => none
  | c :: cs =>
      if c = '"' then
        match scanQuoted false cs with
        | some (body, d :: rest) => if d = ':' ∧ rest.head?.all (· = ' ') then some (.quoted body, rest) else none
        | _ => none
      else (splitColon (c :: cs)).bind fun p => if isPlain p.1 then some (.plain p.1, p.2) else none

def isItem (content : List Char) : Bool := content.take 2 = "- ".toList

/-- The value of a key: on its line, or in the block below. -/
def readValue (block : List Line → Option Node) (rest : List Char) (body : List Line) : Option Node :=
  match rest.dropWhile (· = ' ') with
  | [] => block body
  | text =>
      if body ≠ [] then none
      else if text = "\x7b\x7d".toList then some (.map .nil)
      else (readScalar text).map .scalar

def readFields (block : List Line → Option Node) (n : Nat) : List (Line × List Line) → Option Fields
  | [] => some .nil
  | g :: gs =>
      if g.1.1 = n ∧ isItem g.1.2 = false then
        (readKey g.1.2).bind fun k => (readValue block k.2 g.2).bind fun v => (readFields block n gs).map (.cons k.1 v)
      else none

/-- The value of an item: a scalar, or a mapping that begins on the item's line. -/
def readItem (block : List Line → Option Node) (n : Nat) (text : List Char) (body : List Line) :
    Option Node :=
  match readKey text with
  | some _ => block ((n + 2, text) :: body)
  | none => if body ≠ [] then none else (readScalar text).map .scalar

def readItems (block : List Line → Option Node) (n : Nat) : List (Line × List Line) → Option Items
  | [] => some .nil
  | g :: gs =>
      if g.1.1 = n ∧ isItem g.1.2 = true then
        (readItem block n (g.1.2.drop 2) g.2).bind fun v => (readItems block n gs).map (.cons v)
      else none

/-- The block that some lines make, nested at most `depth` deep. -/
def readBlock : Nat → List Line → Option Node
  | 0, _ => none
  | _, [] => none
  | depth + 1, (n, content) :: ls =>
      let groups := (group n ((n, content) :: ls)).2
      if isItem content then (readItems (readBlock depth) n groups).map .seq
      else (readFields (readBlock depth) n groups).map .map

def toLine (text : List Char) : Line := ((text.takeWhile (· = ' ')).length, text.dropWhile (· = ' '))

def isBlank (text : List Char) : Bool := text.all (· = ' ')

mutual

/-- Every scalar stands for something, and the keys of a mapping differ. -/
def Node.sound : Node → Bool
  | .scalar r => r.value.isSome
  | .map fields => (fields.toList.map fun e => e.1.value).Nodup && fields.sound
  | .seq items => items.sound

def Fields.sound : Fields → Bool
  | .nil => true
  | .cons k v rest => k.value.isSome && v.sound && rest.sound

def Items.sound : Items → Bool
  | .nil => true
  | .cons v rest => v.sound && rest.sound

end

/-- Nothing is nested deeper than a reader follows. -/
def maxDepth : Nat := 10000

/-- What a document stands for; `none` where it is not well-formed. -/
def parse (text : List Char) : Option Node :=
  (readBlock maxDepth (((text.splitOn '\n').filter fun l => !isBlank l).map toLine)).filter Node.sound

/-! ### Writing -/

/-- The line of a key, up to where the block of its value begins. -/
def head (k : Raw) : Node → List Char
  | .scalar r => k.text ++ ':' :: ' ' :: r.text
  | .map .nil => k.text ++ ": \x7b\x7d".toList
  | _ => k.text ++ [':']

mutual

/-- The lines of a block at indentation `n`. -/
def Node.lines (n : Nat) : Node → List Line
  | .scalar _ => []
  | .map fields => fields.lines n
  | .seq items => items.lines n

def Fields.lines (n : Nat) : Fields → List Line
  | .nil => []
  | .cons k v rest => (n, head k v) :: (v.lines (n + 2) ++ rest.lines n)

def Items.lines (n : Nat) : Items → List Line
  | .nil => []
  | .cons (.scalar r) rest => (n, '-' :: ' ' :: r.text) :: rest.lines n
  | .cons (.map (.cons k v fields)) rest =>
      (n, '-' :: ' ' :: head k v) :: (v.lines (n + 4) ++ (fields.lines (n + 2) ++ rest.lines n))
  | .cons _ rest => (n, ['-']) :: rest.lines n

end

mutual

/-- A document that block style can write: no empty blocks but `{}` after a key, no sequence right inside another. -/
def Node.Printable : Node → Prop
  | .scalar r => r.Good
  | .map fields => fields.Printable
  | .seq items => items.Printable ∧ items ≠ .nil

def Fields.Printable : Fields → Prop
  | .nil => True
  | .cons k v rest => k.Good ∧ v.Printable ∧ rest.Printable

def Items.Printable : Items → Prop
  | .nil => True
  | .cons (.scalar r) rest => r.Good ∧ rest.Printable
  | .cons (.map (.cons k v fields)) rest => k.Good ∧ v.Printable ∧ fields.Printable ∧ rest.Printable
  | .cons _ _ => False

end

mutual

def Node.height : Node → Nat
  | .scalar _ => 0
  | .map fields => fields.height + 1
  | .seq items => items.height + 1

def Fields.height : Fields → Nat
  | .nil => 0
  | .cons _ v rest => max v.height rest.height

def Items.height : Items → Nat
  | .nil => 0
  | .cons v rest => max v.height rest.height

end

/-! ### What is written is read back -/

theorem splitColon_key {b : Bool} {t : List Char} (h : plainFrom b t = true) {rest : List Char}
    (hr : rest.head?.all (· = ' ') = true) : splitColon (t ++ ':' :: rest) = some (t, rest) := by
  induction t generalizing b with
  | nil => rw [List.nil_append, splitColon, if_pos ⟨rfl, hr⟩]
  | cons c cs ih =>
      obtain ⟨-, hcolon, hcs⟩ := plainFrom_tail h
      rw [List.cons_append, splitColon, if_neg, ih hcs]
      · rfl
      · rintro ⟨rfl, ha⟩
        obtain ⟨d, ds, rfl⟩ : ∃ d ds, cs = d :: ds :=
          List.exists_cons_of_ne_nil fun he => by simp [he] at hcolon
        have hd := hcolon rfl
        simp_all

theorem readKey_text {k : Raw} (h : k.Good) {rest : List Char} (hr : rest.head?.all (· = ' ') = true) :
    readKey (k.text ++ ':' :: rest) = some (k, rest) := by
  cases k with
  | quoted b =>
      have happ : (Raw.quoted b).text ++ ':' :: rest = '"' :: (b ++ '"' :: ':' :: rest) := by
        simp [Raw.text]
      rw [happ, readKey, if_pos rfl, scanQuoted_body h.1]
      exact if_pos ⟨rfl, hr⟩
  | plain t =>
      obtain ⟨c, cs, hc, -⟩ := h.head
      obtain rfl : t = c :: cs := hc
      have hq : c ≠ '"' := by
        rintro rfl
        simp [Raw.Good, isPlain, isIndicator] at h
      have hp : isPlain (c :: cs) = true := h
      rw [Raw.text, List.cons_append, readKey, if_neg hq, ← List.cons_append,
        splitColon_key (plainFrom_of_isPlain hp) hr]
      exact if_pos hp

/-- A scalar by itself is not taken for a key. -/
theorem readKey_scalar {r : Raw} (h : r.Good) : readKey r.text = none := by
  cases r with
  | quoted b => rw [Raw.text, readKey, if_pos rfl, scanQuoted_body h.1 []]
  | plain t =>
      have key : ∀ (b : Bool) (t : List Char), plainFrom b t = true → splitColon t = none := by
        intro b t ht
        induction t generalizing b with
        | nil => rfl
        | cons c cs ih =>
            obtain ⟨-, hcolon, hcs⟩ := plainFrom_tail ht
            rw [splitColon, if_neg, ih _ hcs]
            · rfl
            · rintro ⟨rfl, ha⟩
              have hd := hcolon rfl
              cases cs <;> simp_all
      obtain ⟨c, cs, hc, -⟩ := h.head
      obtain rfl : t = c :: cs := hc
      have hq : c ≠ '"' := by
        rintro rfl
        simp [Raw.Good, isPlain, isIndicator] at h
      have hp : isPlain (c :: cs) = true := h
      rw [Raw.text, readKey, if_neg hq, key _ _ (plainFrom_of_isPlain hp)]
      rfl

def after : Node → List Char
  | .scalar r => ' ' :: r.text
  | .map .nil => " \x7b\x7d".toList
  | _ => []

theorem head_eq (k : Raw) (v : Node) : head k v = k.text ++ ':' :: after v := by
  rcases v with r | (- | ⟨k', v, fs⟩) | is <;> rfl

theorem readKey_head {k : Raw} (h : k.Good) (v : Node) : readKey (head k v) = some (k, after v) := by
  rw [head_eq]
  refine readKey_text h ?_
  rcases v with r | (- | ⟨k', v, fs⟩) | is <;> rfl

theorem isItem_head {k : Raw} (h : k.Good) (v : Node) : isItem (head k v) = false := by
  obtain ⟨c, cs, hc, -, -, hdash⟩ := h.head
  rw [head_eq, hc, isItem, decide_eq_false_iff_not]
  intro he
  obtain ⟨rfl, h'⟩ := List.cons_eq_cons.1 (show c :: (cs ++ ':' :: after v).take 1 = ['-', ' '] from he)
  have hd := hdash rfl
  cases cs <;> simp_all

/-- A key whose value is a block below it. -/
def Node.Below : Node → Prop
  | .scalar _ => False
  | .map fields => fields ≠ .nil
  | .seq _ => True

theorem head_below (k : Raw) {v : Node} (h : v.Below) : head k v = k.text ++ [':'] := by
  rcases v with r | (- | ⟨k', v, fs⟩) | is
  · exact h.elim
  · exact absurd rfl h
  · rfl
  · rfl

theorem readValue_below (block : List Line → Option Node) {v : Node} (h : v.Below) (body : List Line) :
    readValue block (after v) body = block body := by
  rcases v with r | (- | ⟨k', v, fs⟩) | is
  · exact h.elim
  · exact absurd rfl h
  · rfl
  · rfl

theorem readValue_empty (block : List Line → Option Node) :
    readValue block (after (.map .nil)) [] = some (.map .nil) := rfl

theorem readValue_scalar (block : List Line → Option Node) {r : Raw} (h : r.Good) :
    readValue block (after (.scalar r)) [] = some (.scalar r) := by
  obtain ⟨c, cs, hc, hb, hbrace, -⟩ := h.head
  have hdrop : (after (.scalar r)).dropWhile (· = ' ') = c :: cs := by
    rw [after, hc]
    simp [hb]
  have hne : c :: cs ≠ "\x7b\x7d".toList := fun he => hbrace (List.cons_eq_cons.1 he).1
  rw [readValue, hdrop]
  dsimp only
  rw [if_neg (by simp), if_neg hne, ← hc, readScalar_text h]
  rfl

mutual

theorem Node.lines_deep (n : Nat) : ∀ (t : Node), ∀ l ∈ t.lines n, n ≤ l.1
  | .scalar _ => by simp [Node.lines]
  | .map fields => by
      rw [Node.lines]
      exact Fields.lines_deep n fields
  | .seq items => by
      rw [Node.lines]
      exact Items.lines_deep n items

theorem Fields.lines_deep (n : Nat) : ∀ (fs : Fields), ∀ l ∈ fs.lines n, n ≤ l.1
  | .nil => by simp [Fields.lines]
  | .cons k v rest => by
      intro l hl
      simp only [Fields.lines, List.mem_cons, List.mem_append] at hl
      rcases hl with rfl | hl | hl
      · exact le_rfl
      · exact (Nat.le_add_right n 2).trans (Node.lines_deep (n + 2) v l hl)
      · exact Fields.lines_deep n rest l hl

theorem Items.lines_deep (n : Nat) : ∀ (is : Items), ∀ l ∈ is.lines n, n ≤ l.1
  | .nil => by simp [Items.lines]
  | .cons (.scalar r) rest => by
      intro l hl
      simp only [Items.lines, List.mem_cons] at hl
      rcases hl with rfl | hl
      · exact le_rfl
      · exact Items.lines_deep n rest l hl
  | .cons (.map (.cons k v fields)) rest => by
      intro l hl
      simp only [Items.lines, List.mem_cons, List.mem_append] at hl
      rcases hl with rfl | hl | hl | hl
      · exact le_rfl
      · exact (Nat.le_add_right n 4).trans (Node.lines_deep (n + 4) v l hl)
      · exact (Nat.le_add_right n 2).trans (Fields.lines_deep (n + 2) fields l hl)
      · exact Items.lines_deep n rest l hl
  | .cons (.map .nil) rest => by
      intro l hl
      simp only [Items.lines, List.mem_cons] at hl
      rcases hl with rfl | hl
      · exact le_rfl
      · exact Items.lines_deep n rest l hl
  | .cons (.seq _) rest => by
      intro l hl
      simp only [Items.lines, List.mem_cons] at hl
      rcases hl with rfl | hl
      · exact le_rfl
      · exact Items.lines_deep n rest l hl

end

theorem group_deep {n : Nat} {body : List Line} (h : ∀ l ∈ body, n < l.1) (ls : List Line) :
    group n (body ++ ls) = (body ++ (group n ls).1, (group n ls).2) := by
  induction body with
  | nil => rfl
  | cons l body ih =>
      rw [List.cons_append, group, ih fun m hm => h m (by simp [hm])]
      exact if_pos (h l (by simp))

/-- A line at the indentation of the block begins a group of its own. -/
theorem group_head {n : Nat} {body : List Line} (h : ∀ l ∈ body, n < l.1) (content : List Char)
    {ls : List Line}
    (hls : (group n ls).1 = []) :
    group n ((n, content) :: (body ++ ls)) = ([], ((n, content), body) :: (group n ls).2) := by
  rw [group, group_deep h, hls, List.append_nil]
  exact if_neg (Nat.lt_irrefl n)

theorem lines_deeper (n : Nat) (v : Node) : ∀ l ∈ v.lines (n + 2), n < l.1 := fun l hl => by
  have := v.lines_deep (n + 2) l hl
  omega

theorem group_fields (n : Nat) : ∀ fields : Fields, (group n (fields.lines n)).1 = []
  | .nil => rfl
  | .cons k v rest => by
      rw [Fields.lines, group_head (lines_deeper n v) _ (group_fields n rest)]

theorem item_deeper (n : Nat) (v : Node) (fields : Fields) :
    ∀ l ∈ v.lines (n + 4) ++ fields.lines (n + 2), n < l.1 := fun l hl => by
  rcases List.mem_append.1 hl with hl | hl
  · have := v.lines_deep (n + 4) l hl
    omega
  · have := fields.lines_deep (n + 2) l hl
    omega

theorem group_items (n : Nat) : ∀ items : Items, (group n (items.lines n)).1 = []
  | .nil => rfl
  | .cons (.scalar r) rest => by
      rw [Items.lines, ← List.nil_append (rest.lines n), group_head (by simp) _ (group_items n rest)]
  | .cons (.map (.cons k v fields)) rest => by
      rw [Items.lines, ← List.append_assoc, group_head (item_deeper n v fields) _ (group_items n rest)]
  | .cons (.map .nil) rest => by
      rw [Items.lines, ← List.nil_append (rest.lines n), group_head (by simp) _ (group_items n rest)]
      all_goals nofun
  | .cons (.seq _) rest => by
      rw [Items.lines, ← List.nil_append (rest.lines n), group_head (by simp) _ (group_items n rest)]
      all_goals nofun

theorem readBlock_items (d n : Nat) (content : List Char) (ls : List Line) :
    readBlock (d + 1) ((n, '-' :: ' ' :: content) :: ls) =
      (readItems (readBlock d) n (group n ((n, '-' :: ' ' :: content) :: ls)).2).map .seq := by
  have hitem : isItem ('-' :: ' ' :: content) = true := by simp [isItem]
  simp only [readBlock, hitem, if_true]

theorem readBlock_fields (d n : Nat) {content : List Char} (h : isItem content = false) (ls : List Line) :
    readBlock (d + 1) ((n, content) :: ls) = (readFields (readBlock d) n (group n ((n, content) :: ls)).2).map .map := by
  simp only [readBlock, h, Bool.false_eq_true, if_false]

theorem isItem_dash (content : List Char) : isItem ('-' :: ' ' :: content) = true := by simp [isItem]

mutual

theorem Node.read {d n : Nat} :
    ∀ {t : Node}, t.Printable → t.Below → t.height ≤ d → readBlock d (t.lines n) = some t
  | .scalar _, _, hb, _ => hb.elim
  | .map .nil, _, hb, _ => absurd rfl hb
  | .map (.cons k v rest), hp, _, hd => by
      rw [Node.height] at hd
      obtain ⟨d, rfl⟩ : ∃ e, d = e + 1 := ⟨d - 1, by omega⟩
      have hfields : readFields (readBlock d) n (group n ((Fields.cons k v rest).lines n)).2 = _ :=
        Fields.read hp (by omega)
      rw [Node.Printable, Fields.Printable] at hp
      rw [Fields.lines] at hfields
      rw [Node.lines, Fields.lines, readBlock_fields d n (isItem_head hp.1 v), hfields]
      rfl
  | .seq items, hp, _, hd => by
      rw [Node.height] at hd
      obtain ⟨d, rfl⟩ : ∃ e, d = e + 1 := ⟨d - 1, by omega⟩
      rw [Node.Printable] at hp
      have hitems := Items.read (d := d) (n := n) hp.1 (by omega)
      rw [Node.lines]
      match items, hp, hitems with
      | .nil, hp, _ => exact absurd rfl hp.2
      | .cons (.scalar r) rest, _, hitems =>
          rw [Items.lines] at hitems ⊢
          rw [readBlock_items, hitems]
          rfl
      | .cons (.map (.cons k v fields)) rest, _, hitems =>
          rw [Items.lines] at hitems ⊢
          rw [readBlock_items, hitems]
          rfl
      | .cons (.map .nil) _, hp, _ =>
          rw [Items.Printable] at hp
          · exact hp.1.elim
          all_goals nofun
      | .cons (.seq _) _, hp, _ =>
          rw [Items.Printable] at hp
          · exact hp.1.elim
          all_goals nofun

theorem Fields.read {d n : Nat} : ∀ {fields : Fields}, fields.Printable → fields.height ≤ d →
    readFields (readBlock d) n (group n (fields.lines n)).2 = some fields
  | .nil, _, _ => rfl
  | .cons k v rest, hp, hd => by
      rw [Fields.height] at hd
      rw [Fields.Printable] at hp
      obtain ⟨hk, hv, hrest⟩ := hp
      have hvalue : readValue (readBlock d) (after v) (v.lines (n + 2)) = some v := by
        match v, hv with
        | .scalar r, hv => exact readValue_scalar _ hv
        | .map .nil, _ => exact readValue_empty _
        | .map (.cons k' v' fields), hv =>
            rw [readValue_below _ (by nofun)]
            exact Node.read hv (by nofun) (by omega)
        | .seq items, hv =>
            rw [readValue_below _ (v := .seq items) trivial]
            exact Node.read hv trivial (by omega)
      rw [Fields.lines, group_head (lines_deeper n v) _ (group_fields n rest), readFields, if_pos ⟨rfl, isItem_head hk v⟩,
        readKey_head hk, Option.bind_some, hvalue, Option.bind_some, Fields.read hrest (by omega)]
      rfl

theorem Items.read {d n : Nat} : ∀ {items : Items}, items.Printable → items.height ≤ d →
    readItems (readBlock d) n (group n (items.lines n)).2 = some items
  | .nil, _, _ => rfl
  | .cons (.scalar r) rest, hp, hd => by
      rw [Items.height] at hd
      rw [Items.Printable] at hp
      have hvalue : readItem (readBlock d) n r.text [] = some (.scalar r) := by
        rw [readItem, readKey_scalar hp.1]
        exact congrArg (Option.map Node.scalar) (readScalar_text hp.1)
      rw [Items.lines, ← List.nil_append (rest.lines n), group_head (by simp) _ (group_items n rest), readItems,
        if_pos ⟨rfl, isItem_dash _⟩]
      change (readItem (readBlock d) n r.text []).bind _ = _
      rw [hvalue, Option.bind_some, Items.read hp.2 (by omega)]
      rfl
  | .cons (.map (.cons k v fields)) rest, hp, hd => by
      rw [Items.height] at hd
      rw [Items.Printable] at hp
      have hvalue : readItem (readBlock d) n (head k v) (v.lines (n + 4) ++ fields.lines (n + 2)) =
          some (.map (.cons k v fields)) := by
        have hblock :=
          Node.read (d := d) (n := n + 2) (t := .map (.cons k v fields)) ⟨hp.1, hp.2.1, hp.2.2.1⟩ (by nofun) (by omega)
        rw [readItem, readKey_head hp.1]
        rw [Node.lines, Fields.lines] at hblock
        exact hblock
      rw [Items.lines, ← List.append_assoc, group_head (item_deeper n v fields) _ (group_items n rest), readItems,
        if_pos ⟨rfl, isItem_dash _⟩]
      change (readItem (readBlock d) n (head k v) _).bind _ = _
      rw [hvalue, Option.bind_some, Items.read hp.2.2.2 (by omega)]
      rfl
  | .cons (.map .nil) _, hp, _ => by
      rw [Items.Printable] at hp
      · exact hp.elim
      all_goals nofun
  | .cons (.seq _) _, hp, _ => by
      rw [Items.Printable] at hp
      · exact hp.elim
      all_goals nofun

end

def lineText (l : Line) : List Char := List.replicate l.1 ' ' ++ l.2

def textOf (ls : List Line) : List Char := ['\n'].intercalate (ls.map lineText ++ [[]])

def Clean (content : List Char) : Prop := '\n' ∉ content ∧ ∃ c cs, content = c :: cs ∧ c ≠ ' '

theorem Clean.append {a b : List Char} (ha : Clean a) (hb : '\n' ∉ b) : Clean (a ++ b) := by
  obtain ⟨hn, c, cs, rfl, hc⟩ := ha
  exact ⟨by simp_all, c, cs ++ b, rfl, hc⟩

theorem Raw.Good.clean {r : Raw} (h : r.Good) : Clean r.text := by
  obtain ⟨c, cs, hc, hb, -⟩ := h.head
  exact ⟨h.newline, c, cs, hc, hb⟩

theorem clean_head {k : Raw} (hk : k.Good) {v : Node} (hv : v.Printable) : Clean (head k v) := by
  rw [head_eq]
  refine hk.clean.append ?_
  match v, hv with
  | .scalar r, hv =>
      have := Raw.Good.newline hv
      simpa [after] using this
  | .map .nil, _ => simp [after]
  | .map (.cons _ _ _), _ => simp [after]
  | .seq _, _ => simp [after]

theorem clean_item {content : List Char} (h : '\n' ∉ content) : Clean ('-' :: ' ' :: content) :=
  ⟨by simpa using h, '-', ' ' :: content, rfl, by decide⟩

mutual

theorem Node.clean {n : Nat} : ∀ {t : Node}, t.Printable → ∀ l ∈ t.lines n, Clean l.2
  | .scalar _, _ => by simp [Node.lines]
  | .map fields, hp => by
      rw [Node.lines]
      exact Fields.clean (show fields.Printable from hp)
  | .seq items, hp => by
      rw [Node.lines]
      exact Items.clean hp.1

theorem Fields.clean {n : Nat} : ∀ {fields : Fields}, fields.Printable → ∀ l ∈ fields.lines n, Clean l.2
  | .nil, _ => by simp [Fields.lines]
  | .cons k v rest, hp => by
      rw [Fields.Printable] at hp
      intro l hl
      simp only [Fields.lines, List.mem_cons, List.mem_append] at hl
      rcases hl with rfl | hl | hl
      · exact clean_head hp.1 hp.2.1
      · exact Node.clean hp.2.1 l hl
      · exact Fields.clean hp.2.2 l hl

theorem Items.clean {n : Nat} : ∀ {items : Items}, items.Printable → ∀ l ∈ items.lines n, Clean l.2
  | .nil, _ => by simp [Items.lines]
  | .cons (.scalar r) rest, hp => by
      rw [Items.Printable] at hp
      intro l hl
      simp only [Items.lines, List.mem_cons] at hl
      rcases hl with rfl | hl
      · exact clean_item hp.1.newline
      · exact Items.clean hp.2 l hl
  | .cons (.map (.cons k v fields)) rest, hp => by
      rw [Items.Printable] at hp
      intro l hl
      simp only [Items.lines, List.mem_cons, List.mem_append] at hl
      rcases hl with rfl | hl | hl | hl
      · exact clean_item (clean_head hp.1 hp.2.1).1
      · exact Node.clean hp.2.1 l hl
      · exact Fields.clean hp.2.2.1 l hl
      · exact Items.clean hp.2.2.2 l hl
  | .cons (.map .nil) _, hp => by
      rw [Items.Printable] at hp
      · exact hp.elim
      all_goals nofun
  | .cons (.seq _) _, hp => by
      rw [Items.Printable] at hp
      · exact hp.elim
      all_goals nofun

end

theorem toLine_lineText {l : Line} (h : Clean l.2) : toLine (lineText l) = l := by
  obtain ⟨-, c, cs, hc, hb⟩ := h
  obtain ⟨n, content⟩ := l
  obtain rfl : content = c :: cs := hc
  have hblank : ∀ d ∈ List.replicate n ' ', decide (d = ' ') = true :=
    fun d hd => by simp [List.eq_of_mem_replicate hd]
  rw [toLine, lineText, List.takeWhile_append_of_pos hblank, List.dropWhile_append_of_pos hblank]
  simp [hb]

theorem not_isBlank {l : Line} (h : Clean l.2) : isBlank (lineText l) = false := by
  obtain ⟨-, c, cs, hc, hb⟩ := h
  rw [isBlank, lineText, hc]
  simp [hb]

theorem lines_textOf {ls : List Line} (h : ∀ l ∈ ls, Clean l.2) :
    (((textOf ls).splitOn '\n').filter fun l => !isBlank l).map toLine = ls := by
  have hsplit : (textOf ls).splitOn '\n' = ls.map lineText ++ [[]] := by
    refine List.splitOn_intercalate _ (fun l hl => ?_) (by simp)
    rcases List.mem_append.1 hl with hl | hl
    · obtain ⟨m, hm, rfl⟩ := List.mem_map.1 hl
      simp [lineText, (h m hm).1]
    · rw [List.mem_singleton.1 hl]
      exact List.not_mem_nil
  have hkeep : (ls.map lineText).filter (fun l => !isBlank l) = ls.map lineText := by
    refine List.filter_eq_self.2 fun l hl => ?_
    obtain ⟨m, hm, rfl⟩ := List.mem_map.1 hl
    rw [not_isBlank (h m hm)]
    rfl
  rw [hsplit, List.filter_append, hkeep, List.map_append, List.map_map, show [[]].filter (fun l => !isBlank l) = [] from rfl,
    List.map_nil, List.append_nil]
  exact (List.map_congr_left fun l hl => toLine_lineText (h l hl)).trans (List.map_id' ls)

/-- A printable document is read back as it was written, if its scalars stand for something. -/
theorem parse_textOf {t : Node} (hp : t.Printable) (hb : t.Below) (hd : t.height ≤ maxDepth) :
    parse (textOf (t.lines 0)) = if t.sound then some t else none := by
  rw [parse, lines_textOf (Node.clean hp), Node.read hp hb hd]
  rfl

def Fields.get (key : String) : Fields → Option Node
  | .nil => none
  | .cons k v rest => if k.value = some (.str key) then some v else rest.get key

def Node.get (key : String) : Node → Option Node
  | .map fields => fields.get key
  | _ => none

/-- The text of a scalar, and whether it is a string. -/
def Node.value : Node → Option Value
  | .scalar r => r.value
  | _ => none

def Node.str (t : Node) : Option String :=
  match t.value with
  | some (.str s) => some s
  | _ => none

/-- The items of a sequence of strings. -/
def Node.strs : Node → Option (List String)
  | .seq items => items.toList.mapM Node.str
  | _ => none

/-! ### Building documents -/

namespace Node

def word (s : String) : Node := .scalar (.plain s.toList)

def text (s : String) : Node := .scalar (.quoted s.toList)

def mapOf (l : List (String × Node)) : Node :=
  .map (Fields.ofList (l.map fun e => (.plain e.1.toList, e.2)))

def seqOf (l : List Node) : Node := .seq (Items.ofList l)

end Node

/-- Text that may stand between double quotes as it is. -/
def Literal (s : String) : Prop := ∀ c ∈ s.toList, c ≠ '"' ∧ c ≠ '\\' ∧ 0x20 ≤ c.toNat

/-- A word that may stand without quotes, for the string that it is. -/
structure Word (s : String) : Prop where
  plain : isPlain s.toList = true
  str : isOther s.toList = false

namespace Literal

theorem isBody {l : List Char} (h : ∀ c ∈ l, c ≠ '"' ∧ c ≠ '\\') : isBody false l = true := by
  induction l with
  | nil => rfl
  | cons c l ih =>
      obtain ⟨hq, hb⟩ := h c (by simp)
      simp [Yaml.isBody, hq, hb, ih fun d hd => h d (by simp [hd])]

theorem unescape {l : List Char} (h : ∀ c ∈ l, c ≠ '\\' ∧ 0x20 ≤ c.toNat) (rest : List Char) :
    unescape .text (l ++ rest) = (Yaml.unescape .text rest).map (l ++ ·) := by
  induction l with
  | nil => simp
  | cons c l ih =>
      obtain ⟨hb, hn⟩ := h c (by simp)
      rw [List.cons_append, unescape_char hb (Or.inl hn), ih fun d hd => h d (by simp [hd]),
        Option.map_map]
      rfl

theorem good {s : String} (h : Literal s) : (Raw.quoted s.toList).Good :=
  ⟨isBody fun c hc => ⟨(h c hc).1, (h c hc).2.1⟩, fun hn => absurd (h _ hn).2.2 (by decide)⟩

theorem value {s : String} (h : Literal s) : (Raw.quoted s.toList).value = some (.str s) := by
  have hu := unescape (fun c hc => (h c hc).2) []
  rw [List.append_nil] at hu
  simp [Raw.value, hu, Yaml.unescape]

theorem str {s : String} (h : Literal s) : (Node.text s).str = some s := by
  simp [Node.text, Node.str, Node.value, h.value]

theorem append {s t : String} (hs : Literal s) (ht : Literal t) : Literal (s ++ t) := fun c hc => by
  rw [String.toList_append, List.mem_append] at hc
  exact hc.elim (hs c) (ht c)

end Literal

namespace Word

theorem of_all {l : List String} (h : l.all (fun s => isPlain s.toList && !isOther s.toList) = true) :
    ∀ s ∈ l, Word s := fun s hs => by
  have := List.all_eq_true.1 h s hs
  simp only [Bool.and_eq_true, Bool.not_eq_true'] at this
  exact ⟨this.1, this.2⟩

theorem value {s : String} (h : Word s) : (Raw.plain s.toList).value = some (.str s) := by
  simp [Raw.value, h.str]

theorem node_str {s : String} (h : Word s) : (Node.word s).str = some s := by
  simp [Node.word, Node.str, Node.value, h.value]

theorem keys {l : List (String × Node)} (ks : List String) (hl : l.map (·.1) = ks)
    (h : ks.all (fun s => isPlain s.toList && !isOther s.toList) = true) : ∀ e ∈ l, Word e.1 :=
  fun e he => of_all h e.1 (hl ▸ List.mem_map_of_mem he)

end Word

/-! ### Mappings and sequences from lists -/

theorem get_fields (l : List (Raw × Node)) (key : String) :
    (Node.map (.ofList l)).get key = (l.find? fun e => e.1.value = some (.str key)).map (·.2) := by
  induction l with
  | nil => rfl
  | cons e l ih =>
      have hrest : (Fields.ofList l).get key = _ := ih
      rw [Fields.ofList, Node.get, Fields.get, hrest, List.find?_cons]
      by_cases he : e.1.value = some (.str key) <;> simp [he]

theorem printable_fields {l : List (Raw × Node)} (h : ∀ e ∈ l, e.1.Good ∧ e.2.Printable) :
    (Node.map (.ofList l)).Printable := by
  induction l with
  | nil => exact trivial
  | cons e l ih => exact ⟨(h e (by simp)).1, (h e (by simp)).2, ih fun f hf => h f (by simp [hf])⟩

theorem sound_fields (l : List (Raw × Node)) :
    (Node.map (.ofList l)).sound = (decide (l.map (·.1.value)).Nodup && l.all fun e => e.1.value.isSome && e.2.sound) := by
  have hall : (Fields.ofList l).sound = l.all fun e => e.1.value.isSome && e.2.sound := by
    induction l with
    | nil => rfl
    | cons e l ih => rw [Fields.ofList, Fields.sound, ih, List.all_cons]
  rw [Node.sound, Fields.toList_ofList, hall]

theorem lines_fields (n : Nat) (l : List (Raw × Node)) :
    (Node.map (.ofList l)).lines n = l.flatMap fun e => (n, head e.1 e.2) :: e.2.lines (n + 2) := by
  rw [Node.lines]
  induction l with
  | nil => rfl
  | cons e l ih => rw [Fields.ofList, Fields.lines, ih, List.flatMap_cons, List.cons_append]

theorem height_fields {l : List (Raw × Node)} {d : Nat} (h : ∀ e ∈ l, e.2.height ≤ d) :
    (Node.map (.ofList l)).height ≤ d + 1 := by
  rw [Node.height, Nat.add_le_add_iff_right]
  induction l with
  | nil => exact Nat.zero_le d
  | cons e l ih =>
      rw [Fields.ofList, Fields.height]
      exact Nat.max_le.2 ⟨h e (by simp), ih fun f hf => h f (by simp [hf])⟩

theorem lines_scalars (n : Nat) (rs : List Raw) :
    (Node.seqOf (rs.map .scalar)).lines n = rs.map fun r => (n, '-' :: ' ' :: r.text) := by
  rw [Node.seqOf, Node.lines]
  induction rs with
  | nil => rfl
  | cons r rs ih => rw [List.map_cons, Items.ofList, Items.lines, ih, List.map_cons]

theorem printable_scalars {rs : List Raw} (h : ∀ r ∈ rs, r.Good) (hne : rs ≠ []) :
    (Node.seqOf (rs.map .scalar)).Printable := by
  have key : ∀ rs : List Raw, (∀ r ∈ rs, r.Good) → (Items.ofList (rs.map .scalar)).Printable := by
    intro rs
    induction rs with
    | nil => exact fun _ => trivial
    | cons r rs ih => exact fun h => ⟨h r (by simp), ih fun t ht => h t (by simp [ht])⟩
  refine ⟨key rs h, ?_⟩
  cases rs with
  | nil => exact absurd rfl hne
  | cons r rs => nofun

theorem sound_scalars {rs : List Raw} (h : ∀ r ∈ rs, r.value.isSome = true) :
    (Node.seqOf (rs.map .scalar)).sound = true := by
  rw [Node.seqOf, Node.sound]
  induction rs with
  | nil => rfl
  | cons r rs ih =>
      have hrs := ih fun t ht => h t (by simp [ht])
      rw [List.map_cons, Items.ofList, Items.sound, Node.sound, h r (by simp), hrs]
      rfl

theorem height_scalars (rs : List Raw) : (Node.seqOf (rs.map .scalar)).height = 1 := by
  rw [Node.seqOf, Node.height, Nat.add_eq_right]
  induction rs with
  | nil => rfl
  | cons r rs ih => rw [List.map_cons, Items.ofList, Items.height, ih, Node.height, Nat.max_self]

theorem strs_scalars {α : Type} (f : α → Raw) (g : α → String) (l : List α)
    (h : ∀ a ∈ l, (f a).value = some (.str (g a))) :
    (Node.seqOf ((l.map f).map .scalar)).strs = some (l.map g) := by
  rw [Node.seqOf, Node.strs, Items.toList_ofList]
  induction l with
  | nil => rfl
  | cons a l ih =>
      have ha : (Node.scalar (f a)).str = some (g a) := by simp [Node.str, Node.value, h a (by simp)]
      rw [List.map_cons, List.map_cons, List.mapM_cons, ha, ih fun t ht => h t (by simp [ht])]
      rfl

/-- A string as `JSON.stringify` writes it. -/
def Raw.json (s : String) : Raw := .quoted (jsonBody s.toList)

theorem good_json (s : String) : (Raw.json s).Good := ⟨isBody_jsonBody _, notMem_jsonBody (by decide) _⟩

theorem value_json (s : String) : (Raw.json s).value = some (.str s) := by
  simp [Raw.json, Raw.value, unescape_jsonBody]

theorem value_plain_iff (s key : String) :
    (Raw.plain s.toList).value = some (.str key) ↔ s = key ∧ isOther s.toList = false := by
  simp only [Raw.value, Option.some_inj, String.ofList_toList]
  cases isOther s.toList <;> simp

theorem value_plain_inj {s t : String} (h : (Raw.plain s.toList).value = (Raw.plain t.toList).value) :
    s = t := by
  simp only [Raw.value, Option.some_inj, String.ofList_toList] at h
  split_ifs at h <;> simpa using h

theorem get_plain (l : List (String × Node)) (key : String) :
    (Node.mapOf l).get key = if isOther key.toList then none else (l.find? fun e => e.1 = key).map (·.2) := by
  rw [Node.mapOf, get_fields, List.find?_map, Option.map_map]
  split_ifs with hk
  · refine Option.map_eq_none_iff.2 (List.find?_eq_none.2 fun e _ he => ?_)
    obtain ⟨rfl, hf⟩ := (value_plain_iff e.1 key).1 (of_decide_eq_true he)
    simp [hk] at hf
  · have hsame : ((fun e : Raw × Node => decide (e.1.value = some (.str key))) ∘ fun e : String × Node => (Raw.plain e.1.toList, e.2)) =
        fun e => decide (e.1 = key) := by
      funext e
      refine decide_eq_decide.2 ((value_plain_iff e.1 key).trans (and_iff_left_of_imp ?_))
      rintro rfl
      simpa using hk
    rw [hsame]
    rfl

theorem get_mapOf {l : List (String × Node)} (h : ∀ e ∈ l, Word e.1) (key : String) :
    (Node.mapOf l).get key = (l.find? fun e => e.1 = key).map (·.2) := by
  rw [get_plain]
  split_ifs with hk
  · refine (Option.map_eq_none_iff.2 (List.find?_eq_none.2 fun e he hkey => ?_)).symm
    obtain rfl : e.1 = key := of_decide_eq_true hkey
    simp [(h e he).str] at hk
  · rfl

theorem strs_words {l : List String} (h : ∀ s ∈ l, Word s) :
    (Node.seqOf (l.map .word)).strs = some l := by
  have := strs_scalars (fun s : String => Raw.plain s.toList) id l fun s hs => (h s hs).value
  rwa [List.map_map, List.map_id] at this

theorem printable_mapOf {l : List (String × Node)}
    (h : ∀ e ∈ l, isPlain e.1.toList = true ∧ e.2.Printable) : (Node.mapOf l).Printable :=
  printable_fields fun e he => by
    obtain ⟨f, hf, rfl⟩ := List.mem_map.1 he
    exact h f hf

theorem sound_mapOf (l : List (String × Node)) (h : ∀ e ∈ l, Word e.1) :
    (Node.mapOf l).sound = (decide (l.map (·.1)).Nodup && l.all fun e => e.2.sound) := by
  have hkeys : (l.map fun e => (Raw.plain e.1.toList, e.2)).map (·.1.value) =
      (l.map (·.1)).map fun s => some (Value.str s) := by
    rw [List.map_map, List.map_map]
    exact List.map_congr_left fun e he => (h e he).value
  have hall : ((l.map fun e => (Raw.plain e.1.toList, e.2)).all fun e => e.1.value.isSome && e.2.sound) =
      l.all fun e => e.2.sound := by
    rw [List.all_map, Bool.eq_iff_iff, List.all_eq_true, List.all_eq_true]
    exact forall₂_congr fun e he => by simp [(h e he).value]
  have hnodup : ((l.map (·.1)).map fun s => some (Value.str s)).Nodup ↔ (l.map (·.1)).Nodup :=
    List.nodup_map_iff fun a b hab => by simpa using hab
  rw [Node.mapOf, sound_fields, hkeys, hall]
  simp only [hnodup]

theorem printable_words {l : List String} (h : ∀ s ∈ l, isPlain s.toList = true) (hne : l ≠ []) :
    (Node.seqOf (l.map .word)).Printable := by
  have := printable_scalars (fun r (hr : r ∈ l.map fun s => Raw.plain s.toList) => by
    obtain ⟨s, hs, rfl⟩ := List.mem_map.1 hr
    exact h s hs) (by simpa using hne)
  rwa [List.map_map] at this

theorem sound_words {l : List String} (h : ∀ s ∈ l, Word s) :
    (Node.seqOf (l.map .word)).sound = true := by
  have := sound_scalars fun r (hr : r ∈ l.map fun s => Raw.plain s.toList) => by
    obtain ⟨s, hs, rfl⟩ := List.mem_map.1 hr
    simp [(h s hs).value]
  rwa [List.map_map] at this

theorem Word.sound {s : String} (h : Word s) : (Node.word s).sound = true := by
  simp [Node.word, Node.sound, h.value]

theorem Literal.sound {s : String} (h : Literal s) : (Node.text s).sound = true := by
  simp [Node.text, Node.sound, h.value]

theorem textOf_eq {lines : List String} (hne : lines ≠ []) {ls : List Line}
    (h : lines.map String.toList = ls.map lineText) :
    ("\n".intercalate lines ++ "\n").toList = textOf ls := by
  have key : ∀ l : List (List Char), l ≠ [] →
    ['\n'].intercalate (l ++ [[]]) = ['\n'].intercalate l ++ ['\n'] := by
    intro l
    induction l with
    | nil => exact fun hne => absurd rfl hne
    | cons a l ih =>
        intro _
        cases l with
        | nil => simp
        | cons b l =>
            have := ih (by simp)
            rw [List.cons_append, List.cons_append, List.intercalate_cons_cons, ← List.cons_append, this,
              List.intercalate_cons_cons]
            simp
  have hnl : "\n".toList = ['\n'] := rfl
  rw [String.toList_append, String.toList_intercalate, hnl, h, textOf, key]
  rw [← h]
  simpa using hne

end Yeah.Yaml
