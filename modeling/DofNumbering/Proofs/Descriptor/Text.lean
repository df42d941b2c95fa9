import DofNumbering.Proofs.Descriptor

namespace DofNumbering

/-! The text of a container determines the container.

A text says where it ends: its first word tells what kind of block follows, a list of children
ends at a bracket with which no child begins, and a size ends at the first character that is not
a digit.  So two texts, each with something behind it, are only equal if the containers are equal
and the same stands behind them.
-/

section Words

theorem Text.toList_separated_cons (separator first : String) (rest : List String) :
    (separated separator (first :: rest)).toList =
      first.toList ++ rest.flatMap (fun text => separator.toList ++ text.toList) := by
  induction rest generalizing first with
  | nil => simp [separated]
  | cons second rest ih =>
      rw [separated, String.toList_append, String.toList_append, ih, List.flatMap_cons,
        List.append_assoc, List.append_assoc]
      simp

theorem takeWhile_append_cons {member : Char → Bool} {word rest : List Char} {next : Char}
    (each : ∀ char ∈ word, member char = true) (ends : member next = false) :
    (word ++ next :: rest).takeWhile member = word := by
  rw [List.takeWhile_append_of_pos each, List.takeWhile_cons_of_neg (by simp [ends]),
    List.append_nil]

/-- A number ends where its digits end. -/
theorem toDigits_append_cons_inj {number number' : Nat} {next next' : Char} {rest rest' : List Char}
    (ends : next.isDigit = false) (ends' : next'.isDigit = false)
    (same : Nat.toDigits 10 number ++ next :: rest = Nat.toDigits 10 number' ++ next' :: rest') :
    number = number' ∧ next :: rest = next' :: rest' := by
  have digits (number : Nat) : ∀ char ∈ Nat.toDigits 10 number, char.isDigit = true :=
    fun char inDigits => Nat.isDigit_of_mem_toDigits (by decide) (by decide) inDigits
  have sameDigits : Nat.toDigits 10 number = Nat.toDigits 10 number' := calc
    Nat.toDigits 10 number
      = (Nat.toDigits 10 number ++ next :: rest).takeWhile Char.isDigit :=
        (takeWhile_append_cons (digits number) ends).symm
    _ = (Nat.toDigits 10 number' ++ next' :: rest').takeWhile Char.isDigit := by rw [same]
    _ = Nat.toDigits 10 number' := takeWhile_append_cons (digits number') ends'
  have sameNumber : number = number' := by
    rw [← Nat.ofDigitChars_ten_toDigits (n := number), sameDigits, Nat.ofDigitChars_ten_toDigits]
  subst sameNumber
  exact ⟨rfl, List.append_cancel_left same⟩

end Words

def Extent.isDynamic : Extent → Bool
  | .static _ => false
  | .dynamic _ => true

namespace Descriptor

variable {node other child : Descriptor} {children others : List Descriptor}
  {extent extent' : Extent} {rest rest' : List Char}

section Parts

/-- What the first word of a text tells about a container. -/
inductive Opening where
  | unknown
  | value
  | block (form : Form)
  | uniform (isDynamic : Bool)
deriving DecidableEq

/-- The first word of a text, with the bracket behind it. -/
def Opening.word : Opening → String
  | .unknown => "Unknown"
  | .value => "Value"
  | .block .tuple => "Tuple("
  | .block .array => "Array["
  | .block .vector => "Vector["
  | .uniform false => "UniformArray<"
  | .uniform true => "UniformVector<"

def opening : Descriptor → Opening
  | .unknown => .unknown
  | .value => .value
  | .block form _ => .block form
  | .uniform extent _ => .uniform extent.isDynamic

/-- The bracket behind the children of a block. -/
def bracketBehind : Form → Char
  | .tuple => ')'
  | .array => ']'
  | .vector => ']'

/-- What stands behind the child of a uniform block. -/
def sizeText : Extent → String
  | .static size => "; " ++ toString size ++ ">"
  | .dynamic size => ">(" ++ toString size ++ ")"

/-- The text behind the first word. -/
def content : Descriptor → String
  | .unknown => ""
  | .value => ""
  | .block form children =>
      Text.separated ", " (texts children) ++ String.singleton (bracketBehind form)
  | .uniform extent child => child.text ++ sizeText extent

theorem text_eq (node : Descriptor) : node.text = node.opening.word ++ node.content := by
  cases node with
  | unknown => exact String.append_empty.symm
  | value => exact String.append_empty.symm
  | block form children => cases form <;> exact String.append_assoc
  | uniform extent child =>
      cases extent with
      | static size =>
          change "UniformArray<" ++ child.text ++ "; " ++ toString size ++ ">" =
            "UniformArray<" ++ (child.text ++ ("; " ++ toString size ++ ">"))
          simp only [String.append_assoc]
      | dynamic size =>
          change "UniformVector<" ++ child.text ++ ">(" ++ toString size ++ ")" =
            "UniformVector<" ++ (child.text ++ (">(" ++ toString size ++ ")"))
          simp only [String.append_assoc]

theorem texts_eq_map : texts children = children.map text := by
  induction children with
  | nil => rfl
  | cons child rest ih => exact congrArg (child.text :: ·) ih

/-- The texts of children that follow others. -/
def listedBehind (children : List Descriptor) : List Char :=
  children.flatMap (fun child => ',' :: ' ' :: child.text.toList)

def listed : List Descriptor → List Char
  | [] => []
  | child :: rest => child.text.toList ++ listedBehind rest

theorem toList_separated_texts :
    (Text.separated ", " (texts children)).toList = listed children := by
  cases children with
  | nil => rfl
  | cons child rest =>
      rw [texts_eq_map, List.map_cons, Text.toList_separated_cons, List.flatMap_map, listed,
        listedBehind]
      simp

/-- No first word is the beginning of another one. -/
theorem Opening.eq_of_common_start {left right : Opening}
    (isPrefix : left.word.toList <+: right.word.toList) : left = right := by
  revert isPrefix
  rcases left with _ | _ | (_ | _ | _) | (_ | _) <;>
    rcases right with _ | _ | (_ | _ | _) | (_ | _) <;> decide

theorem Opening.word_append_inj {left right : Opening}
    (same : left.word.toList ++ rest = right.word.toList ++ rest') :
    left = right ∧ rest = rest' := by
  have sameOpening : left = right := by
    rcases List.prefix_or_prefix_of_prefix (List.prefix_append left.word.toList rest)
      (same ▸ List.prefix_append right.word.toList rest') with isPrefix | isPrefix
    · exact eq_of_common_start isPrefix
    · exact (eq_of_common_start isPrefix).symm
  subst sameOpening
  exact ⟨rfl, List.append_cancel_left same⟩

theorem text_append_inj (same : node.text.toList ++ rest = other.text.toList ++ rest') :
    node.opening = other.opening ∧
      node.content.toList ++ rest = other.content.toList ++ rest' := by
  rw [text_eq node, text_eq other, String.toList_append, String.toList_append, List.append_assoc,
    List.append_assoc] at same
  exact Opening.word_append_inj same

/-- No text begins with a bracket behind children. -/
theorem text_append_ne {form : Form} :
    node.text.toList ++ rest ≠ bracketBehind form :: rest' := by
  intro same
  obtain ⟨char, others, word, different⟩ : ∃ char others,
      node.opening.word.toList = char :: others ∧ char ≠ bracketBehind form := by
    rcases node.opening with _ | _ | (_ | _ | _) | (_ | _) <;>
      exact ⟨_, _, rfl, by cases form <;> decide⟩
  rw [text_eq node, String.toList_append, word, List.cons_append, List.cons_append] at same
  exact different (List.cons.inj same).1

theorem sizeText_append_inj
    (same : (sizeText extent).toList ++ rest = (sizeText extent').toList ++ rest') :
    extent = extent' ∧ rest = rest' := by
  cases extent <;> cases extent' <;> simp [sizeText] at same
  all_goals
    obtain ⟨rfl, sameRest⟩ := toDigits_append_cons_inj (by decide) (by decide) same
    exact ⟨rfl, (List.cons.inj sameRest).2⟩

end Parts

/-- A text with something behind it belongs to one container only. -/
def Recognized (node : Descriptor) : Prop :=
  ∀ (other : Descriptor) (rest rest' : List Char),
    node.text.toList ++ rest = other.text.toList ++ rest' → node = other ∧ rest = rest'

theorem listedBehind_append_inj {form : Form} (each : ∀ child ∈ children, child.Recognized)
    (same : listedBehind children ++ bracketBehind form :: rest =
      listedBehind others ++ bracketBehind form :: rest') : children = others ∧ rest = rest' := by
  have notComma : bracketBehind form ≠ ',' := by cases form <;> decide
  induction children generalizing others with
  | nil =>
      cases others with
      | nil => exact ⟨rfl, (List.cons.inj same).2⟩
      | cons other others => exact absurd (List.cons.inj same).1 notComma
  | cons child children ih =>
      cases others with
      | nil => exact absurd (List.cons.inj same).1.symm notComma
      | cons other others =>
          obtain ⟨here, behind⟩ := List.forall_mem_cons.mp each
          simp only [listedBehind, List.flatMap_cons, List.cons_append, List.append_assoc,
            List.cons.injEq, true_and] at same
          obtain ⟨rfl, sameRest⟩ := here other _ _ same
          obtain ⟨rfl, sameEnd⟩ := ih behind sameRest
          exact ⟨rfl, sameEnd⟩

theorem listed_append_inj {form : Form} (each : ∀ child ∈ children, child.Recognized)
    (same : listed children ++ bracketBehind form :: rest =
      listed others ++ bracketBehind form :: rest') : children = others ∧ rest = rest' := by
  cases children with
  | nil =>
      cases others with
      | nil => exact ⟨rfl, (List.cons.inj same).2⟩
      | cons other others =>
          rw [listed, listed, List.append_assoc] at same
          exact absurd same.symm text_append_ne
  | cons child children =>
      cases others with
      | nil =>
          rw [listed, listed, List.append_assoc] at same
          exact absurd same text_append_ne
      | cons other others =>
          obtain ⟨here, behind⟩ := List.forall_mem_cons.mp each
          rw [listed, listed, List.append_assoc, List.append_assoc] at same
          obtain ⟨rfl, sameRest⟩ := here other _ _ same
          obtain ⟨rfl, sameEnd⟩ := listedBehind_append_inj behind sameRest
          exact ⟨rfl, sameEnd⟩

theorem recognized (node : Descriptor) : node.Recognized := by
  induction node with
  | unknown =>
      intro other rest rest' same
      obtain ⟨sameOpening, sameRest⟩ := text_append_inj same
      cases other with
      | unknown => exact ⟨rfl, sameRest⟩
      | _ => cases sameOpening
  | value =>
      intro other rest rest' same
      obtain ⟨sameOpening, sameRest⟩ := text_append_inj same
      cases other with
      | value => exact ⟨rfl, sameRest⟩
      | _ => cases sameOpening
  | block form children each =>
      intro other rest rest' same
      obtain ⟨sameOpening, sameRest⟩ := text_append_inj same
      cases other with
      | block form' others =>
          cases sameOpening
          simp only [content, String.toList_append, toList_separated_texts, String.toList_singleton,
            List.append_assoc, List.singleton_append] at sameRest
          obtain ⟨rfl, sameEnd⟩ := listed_append_inj each sameRest
          exact ⟨rfl, sameEnd⟩
      | _ => cases sameOpening
  | uniform extent child inner =>
      intro other rest rest' same
      obtain ⟨sameOpening, sameRest⟩ := text_append_inj same
      cases other with
      | uniform extent' other =>
          simp only [content, String.toList_append, List.append_assoc] at sameRest
          obtain ⟨rfl, sameSizes⟩ := inner other _ _ sameRest
          obtain ⟨rfl, sameEnd⟩ := sizeText_append_inj sameSizes
          exact ⟨rfl, sameEnd⟩
      | _ => cases sameOpening

/-- A text belongs to one container only, and no text is the beginning of another one. -/
theorem text_determines (node other : Descriptor) :
    (node.text = other.text ↔ node = other) ∧
    ∀ rest : String, node.text ++ rest = other.text ↔ node = other ∧ rest = "" := by
  have begins (rest : String) (same : node.text ++ rest = other.text) :
      node = other ∧ rest = "" := by
    have sameList : node.text.toList ++ rest.toList = other.text.toList ++ [] := by
      rw [← String.toList_append, same, List.append_nil]
    obtain ⟨sameNode, noRest⟩ := node.recognized other _ _ sameList
    exact ⟨sameNode, String.toList_eq_nil_iff.mp noRest⟩
  constructor
  · constructor
    · intro same
      exact (begins "" (String.append_empty.trans same)).1
    · rintro rfl
      rfl
  · intro rest
    constructor
    · exact begins rest
    · rintro ⟨rfl, rfl⟩
      exact String.append_empty

end Descriptor

end DofNumbering
