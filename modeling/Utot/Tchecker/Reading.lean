import Mathlib.Data.List.TakeWhile
import Utot.Tchecker.Lines
import Utot.Tchecker.Operands

/-!
# Reading lines of the TChecker format

Fields are separated by `:`, `#` starts a comment, attributes are keys and
values between braces, and an element of a vector is `P@e`, with a `?` behind it
if it is weak.  A line whose fields and attributes contain no separator is read
back as what it was written from.
-/

namespace Utot.Tchecker

/-! ## Tokens and numbers -/

/-- The characters to which the format gives a meaning in every line. -/
def separators : List Char := [':', '\x7b', '\x7d', '#', '\n']

/-- The text contains no separator. -/
def Unseparated (text : List Char) : Prop := ∀ c ∈ text, c ∉ separators

/-- A letter or `_`, followed by letters, digits and `_`. -/
def isToken : List Char → Bool
  | [] => false
  | c :: rest => isWordStart c && (c :: rest).all isWordChar

/-- The name is a single identifier token. -/
def IsToken (name : String) : Prop := isToken name.toList = true

instance (name : String) : Decidable (IsToken name) := inferInstanceAs (Decidable (_ = true))

def readToken (text : List Char) : Option String :=
  if isToken text then some (String.ofList text) else none

def readNat (text : List Char) : Option Nat :=
  if text ≠ [] ∧ text.all Char.isDigit then some (Nat.ofDigitChars 10 text 0) else none

def readInt : List Char → Option Int
  | '-' :: digits => (readNat digits).map fun n : Nat => -(n : Int)
  | digits => (readNat digits).map fun n : Nat => (n : Int)

/-! ## Lines -/

def readPairs : List (List Char) → Option (List (String × String))
  | [] => some []
  | [_] => none
  | key :: value :: rest =>
      (readPairs rest).map ((String.ofList key, String.ofList value) :: ·)

def readAttributes : List Char → Option (List (String × String))
  | '\x7b' :: rest =>
      if rest.getLast? = some '\x7d' then
        if rest.dropLast = [] then some [] else readPairs (rest.dropLast.splitOn ':')
      else none
  | _ => none

def readElement (text : List Char) : Option SyncElement :=
  match text.splitOn '@' with
  | [process, event] => do
      let process ← readToken process
      if event.getLast? = some '?' then do
        let event ← readToken event.dropLast
        some ⟨process, event, true⟩
      else do
        let event ← readToken event
        some ⟨process, event, false⟩
  | _ => none

/-- The elements of a vector. -/
def readElements : List (List Char) → Option SyncVector
  | [] => some []
  | text :: rest => do
      let element ← readElement text
      let vector ← readElements rest
      some (element :: vector)

/-- A line without attributes, from its fields. -/
def readPlain (kind : String) (fields : List (List Char)) : Option Line :=
  match kind, fields with
  | "system", [id] => some (.system (String.ofList id))
  | "process", [id] => (readToken id).map .process
  | "event", [id] => (readToken id).map .event
  | "clock", [size, id] => do
      let size ← readInt size
      let id ← readToken id
      some (.clock id size)
  | "int", [size, min, max, init, id] => do
      let size ← readInt size
      let min ← readInt min
      let max ← readInt max
      let init ← readInt init
      let id ← readToken id
      some (.intvar min max init id size)
  | "sync", elements => (readElements elements).map .sync
  | _, _ => none

/-- A line with attributes. -/
def readAttributed (attr : List (String × String)) (kind : String) (fields : List (List Char)) :
    Option Line :=
  match kind, fields with
  | "location", [process, id] => do
      let process ← readToken process
      let id ← readToken id
      some (.location process id attr)
  | "edge", [process, src, tgt, event] => do
      let process ← readToken process
      let src ← readToken src
      let tgt ← readToken tgt
      let event ← readToken event
      some (.edge process src tgt event attr)
  | _, _ => none

/-- A line without comment. -/
def readLine (text : List Char) : Option Line :=
  match (text.takeWhile (· ≠ '\x7b')).splitOn ':', text.dropWhile (· ≠ '\x7b') with
  | [], _ => none
  | kind :: fields, [] => readPlain (String.ofList kind) fields
  | kind :: fields, attr => do
      let attr ← readAttributes attr
      readAttributed attr (String.ofList kind) fields

/-- The lines of a model; empty lines and comments are skipped. -/
def readLines : List (List Char) → Option (List Line)
  | [] => some []
  | text :: rest =>
      if text.takeWhile (· ≠ '#') = [] then readLines rest
      else do
        let line ← readLine (text.takeWhile (· ≠ '#'))
        let lines ← readLines rest
        some (line :: lines)

/-- A whole file. -/
def readModel (file : List Char) : Option (List Line) := readLines (file.splitOn '\n')

/-! ## Lines that can be read -/

/-- The names of the line are tokens, its other texts are without separators. -/
def Readable : Line → Prop
  | .system id => Unseparated id.toList
  | .process id => IsToken id
  | .event id => IsToken id
  | .clock id _ => IsToken id
  | .intvar _ _ _ id _ => IsToken id
  | .location process id attr =>
      IsToken process ∧ IsToken id ∧ ∀ kv ∈ attr, Unseparated kv.1.toList ∧ Unseparated kv.2.toList
  | .edge process src tgt event attr =>
      IsToken process ∧ IsToken src ∧ IsToken tgt ∧ IsToken event ∧
        ∀ kv ∈ attr, Unseparated kv.1.toList ∧ Unseparated kv.2.toList
  | .sync vector => ∀ x ∈ vector, IsToken x.process ∧ IsToken x.event

/-! ## Characters -/

theorem Unseparated.append {text text' : List Char} (first : Unseparated text)
    (second : Unseparated text') : Unseparated (text ++ text') := by
  intro c inside
  rcases List.mem_append.mp inside with front | back
  · exact first c front
  · exact second c back

theorem Unseparated.not_mem {text : List Char} (clean : Unseparated text) {c : Char}
    (separator : c ∈ separators) : c ∉ text := fun inside => clean c inside separator

theorem not_wordChar {c : Char} (special : c ∈ '@' :: '?' :: separators) : isWordChar c = false := by
  have all : ('@' :: '?' :: separators).all (fun c => !isWordChar c) = true := by decide
  simpa using List.all_eq_true.mp all c special

theorem wordChars_of_isToken {text : List Char} (token : isToken text = true) :
    text ≠ [] ∧ text.all isWordChar = true := by
  cases text with
  | nil => cases token
  | cons c rest => exact ⟨List.cons_ne_nil _ _, ((Bool.and_eq_true _ _).mp token).2⟩

/-- A token contains neither separators nor the signs of vectors. -/
theorem IsToken.not_mem {name : String} (token : IsToken name) {c : Char}
    (special : c ∈ '@' :: '?' :: separators) : c ∉ name.toList := by
  intro inside
  have word := List.all_eq_true.mp (wordChars_of_isToken token).2 c inside
  rw [not_wordChar special] at word
  cases word

theorem IsToken.unseparated {name : String} (token : IsToken name) : Unseparated name.toList :=
  fun _ inside separator =>
    token.not_mem (List.mem_cons_of_mem _ (List.mem_cons_of_mem _ separator)) inside

theorem unseparated_digits (n : Nat) : Unseparated n.repr.toList := by
  intro c inside separator
  rw [Nat.toList_repr] at inside
  have digit := Nat.isDigit_of_mem_toDigits (by decide) (by decide) inside
  have none : separators.all (fun c => !c.isDigit) = true := by decide
  have other := List.all_eq_true.mp none c separator
  rw [digit] at other
  cases other

theorem unseparated_int (i : Int) : Unseparated (toString i).toList := by
  change Unseparated (Int.repr i).toList
  rw [Int.repr_eq_if]
  split
  · exact unseparated_digits _
  · rw [String.toList_append]
    apply Unseparated.append
    · exact List.forall_mem_singleton.mpr (by decide)
    · exact unseparated_digits _

/-! ## Reading back -/

theorem readToken_toList {name : String} (token : IsToken name) :
    readToken name.toList = some name := by
  unfold IsToken at token
  rw [readToken, if_pos token, String.ofList_toList]

theorem readNat_repr (n : Nat) : readNat n.repr.toList = some n := by
  have nonempty : n.repr.toList ≠ [] := by
    rw [Nat.toList_repr]
    exact Nat.toDigits_ne_nil
  have digits : n.repr.toList.all Char.isDigit = true := by
    rw [Nat.toList_repr, List.all_eq_true]
    exact fun c inside => Nat.isDigit_of_mem_toDigits (by decide) (by decide) inside
  rw [readNat, if_pos ⟨nonempty, digits⟩, Nat.toList_repr, Nat.ofDigitChars_ten_toDigits]

theorem readInt_toString (i : Int) : readInt (toString i).toList = some i := by
  change readInt (Int.repr i).toList = some i
  rw [Int.repr_eq_if]
  split
  · rename_i natural
    have noSign : ∀ rest, i.toNat.repr.toList ≠ '-' :: rest := by
      intro rest sign
      have digit : '-'.isDigit = true := by
        apply Nat.isDigit_of_mem_toDigits (n := i.toNat) (by decide) (by decide : 10 ≤ 10)
        rw [← Nat.toList_repr, sign]
        exact List.mem_cons_self
      cases digit
    rw [readInt]
    · rw [readNat_repr, Option.map_some, Int.toNat_of_nonneg natural]
    · exact fun rest sign => noSign rest sign
  · rename_i negative
    rw [String.toList_append, show "-".toList = ['-'] from rfl, List.singleton_append, readInt,
      readNat_repr, Option.map_some]
    congr 1
    omega

/-- The keys and values of attributes, as they follow one another. -/
def attributeFields (attr : List (String × String)) : List (List Char) :=
  attr.flatMap fun kv => [kv.1.toList, kv.2.toList]

theorem attributeFields_cons (kv : String × String) (rest : List (String × String)) :
    attributeFields (kv :: rest) = kv.1.toList :: kv.2.toList :: attributeFields rest := rfl

theorem readPairs_attributeFields (attr : List (String × String)) :
    readPairs (attributeFields attr) = some attr := by
  induction attr with
  | nil => rfl
  | cons kv rest ih =>
      rw [attributeFields_cons, readPairs, ih, Option.map_some, String.ofList_toList,
        String.ofList_toList]

theorem toList_renderAttributes (attr : List (String × String)) :
    (renderAttributes attr).toList =
      '\x7b' :: ([':'].intercalate (attributeFields attr) ++ ['\x7d']) := by
  have inner : ":".toList.intercalate
      ((attr.map fun kv => kv.1 ++ ":" ++ kv.2).map String.toList) =
        [':'].intercalate (attributeFields attr) := by
    induction attr with
    | nil => rfl
    | cons kv rest ih =>
        rw [attributeFields_cons, List.intercalate_cons_cons, List.map_cons, List.map_cons]
        cases rest with
        | nil => simp [attributeFields]
        | cons kv' rest =>
            rw [List.intercalate_cons_of_ne_nil (by simp), ih,
              List.intercalate_cons_of_ne_nil (by simp [attributeFields])]
            simp
  unfold renderAttributes
  rw [String.toList_append, String.toList_append, String.toList_intercalate, inner]
  rfl

theorem readAttributes_render {attr : List (String × String)}
    (clean : ∀ kv ∈ attr, Unseparated kv.1.toList ∧ Unseparated kv.2.toList) :
    readAttributes (renderAttributes attr).toList = some attr := by
  rw [toList_renderAttributes, readAttributes, List.getLast?_concat, if_pos rfl,
    List.dropLast_concat]
  cases attr with
  | nil => rfl
  | cons kv rest =>
      have free : ∀ field ∈ attributeFields (kv :: rest), ':' ∉ field := by
        intro field listed
        obtain ⟨entry, member, one⟩ := List.mem_flatMap.mp listed
        have both := clean entry member
        rcases List.mem_pair.mp one with rfl | rfl
        · exact both.1.not_mem (by decide)
        · exact both.2.not_mem (by decide)
      have nonempty : attributeFields (kv :: rest) ≠ [] := List.cons_ne_nil _ _
      have filled : [':'].intercalate (attributeFields (kv :: rest)) ≠ [] := by
        rw [attributeFields_cons, List.intercalate_cons_cons]
        simp
      rw [if_neg filled, List.splitOn_intercalate ':' free nonempty, readPairs_attributeFields]

theorem readElement_render {x : SyncElement} (process : IsToken x.process) (event : IsToken x.event) :
    readElement (x.process.toList ++ '@' :: x.event.toList ++ if x.weak then ['?'] else []) =
      some x := by
  obtain ⟨P, e, weak⟩ := x
  have noSign : '@' ∉ P.toList := process.not_mem (by decide)
  have noSign' : '@' ∉ e.toList ++ if weak then ['?'] else [] := by
    rw [List.mem_append, not_or]
    refine ⟨event.not_mem (by decide), ?_⟩
    cases weak <;> decide
  have split : (P.toList ++ '@' :: e.toList ++ if weak then ['?'] else []).splitOn '@' =
      [P.toList, e.toList ++ if weak then ['?'] else []] := by
    rw [List.append_assoc, List.cons_append,
      List.splitOn_append_cons_self_of_not_mem noSign, List.splitOn_eq_singleton noSign']
  unfold readElement
  rw [split]
  dsimp only
  rw [readToken_toList process]
  cases weak with
  | true =>
      change (if (e.toList ++ ['?']).getLast? = some '?' then _ else _) = _
      rw [List.getLast?_concat, if_pos rfl]
      change (readToken (e.toList ++ ['?']).dropLast >>= _) = _
      rw [List.dropLast_concat, readToken_toList event]
      rfl
  | false =>
      have last : (e.toList ++ []).getLast? ≠ some '?' := by
        rw [List.append_nil]
        intro ends
        exact event.not_mem (by decide) (List.mem_of_getLast? ends)
      change (if (e.toList ++ []).getLast? = some '?' then _ else _) = _
      rw [if_neg last]
      change (readToken (e.toList ++ []) >>= _) = _
      rw [List.append_nil, readToken_toList event]
      rfl

/-! ## Whole lines -/

/-- The field of an element of a vector. -/
def elementField (x : SyncElement) : List Char :=
  x.process.toList ++ '@' :: x.event.toList ++ if x.weak then ['?'] else []

/-- The word a line starts with. -/
def lineKind : Line → String
  | .system _ => "system"
  | .process _ => "process"
  | .event _ => "event"
  | .clock _ _ => "clock"
  | .intvar _ _ _ _ _ => "int"
  | .location _ _ _ => "location"
  | .edge _ _ _ _ _ => "edge"
  | .sync _ => "sync"

/-- The fields behind it. -/
def lineFields : Line → List (List Char)
  | .system id => [id.toList]
  | .process id => [id.toList]
  | .event id => [id.toList]
  | .clock id size => [(toString size).toList, id.toList]
  | .intvar min max init id size =>
      [(toString size).toList, (toString min).toList, (toString max).toList, (toString init).toList,
        id.toList]
  | .location process id _ => [process.toList, id.toList]
  | .edge process src tgt event _ => [process.toList, src.toList, tgt.toList, event.toList]
  | .sync vector => vector.map elementField

/-- The attributes of a line, if it has any. -/
def lineAttributes : Line → Option (List (String × String))
  | .location _ _ attr => some attr
  | .edge _ _ _ _ attr => some attr
  | _ => none

/-- What is written for attributes. -/
def attributesText : Option (List (String × String)) → List Char
  | none => []
  | some attr => (renderAttributes attr).toList

theorem intercalate_elements (kind : List Char) (vector : SyncVector) :
    [':'].intercalate (kind :: vector.map elementField) =
      kind ++ (String.join (vector.map renderElement)).toList := by
  induction vector generalizing kind with
  | nil => simp
  | cons x rest ih =>
      rw [List.map_cons, List.intercalate_cons_cons, ih, List.map_cons, String.join_cons,
        String.toList_append]
      cases weak : x.weak <;> simp [renderElement, elementField, weak]

theorem toList_render (l : Line) :
    (render l).toList =
      [':'].intercalate ((lineKind l).toList :: lineFields l) ++ attributesText (lineAttributes l) := by
  cases l with
  | sync vector =>
      rw [show lineFields (.sync vector) = vector.map elementField from rfl, intercalate_elements]
      simp [render, lineKind, lineAttributes, attributesText]
  | _ => simp [render, lineKind, lineFields, lineAttributes, attributesText]

theorem readElements_render {vector : SyncVector}
    (tokens : ∀ x ∈ vector, IsToken x.process ∧ IsToken x.event) :
    readElements (vector.map elementField) = some vector := by
  induction vector with
  | nil => rfl
  | cons x rest ih =>
      obtain ⟨process, event⟩ := tokens x List.mem_cons_self
      have first : readElement (elementField x) = some x := readElement_render process event
      rw [List.map_cons, readElements, first, ih fun y later => tokens y (List.mem_cons_of_mem _ later)]
      rfl

theorem Readable.attributes {l : Line} (readable : Readable l) {attr : List (String × String)}
    (given : lineAttributes l = some attr) :
    ∀ kv ∈ attr, Unseparated kv.1.toList ∧ Unseparated kv.2.toList := by
  cases l with
  | location process id attr' =>
      cases given
      exact readable.2.2
  | edge process src tgt event attr' =>
      cases given
      exact readable.2.2.2.2
  | _ => cases given

theorem lineKind_token (l : Line) : IsToken (lineKind l) := by
  have words : ∀ kind ∈ ["system", "process", "event", "clock", "int", "location", "edge", "sync"],
      IsToken kind := by decide
  apply words
  cases l <;> simp [lineKind]

theorem unseparated_element {x : SyncElement} (process : IsToken x.process) (event : IsToken x.event) :
    Unseparated (elementField x) := by
  have signs : ∀ c ∈ ['@', '?'], c ∉ separators := by simp [separators]
  have sign : Unseparated ['@'] := fun c inside => signs c (List.mem_cons.mpr (.inl (List.mem_singleton.mp inside)))
  have mark : Unseparated (if x.weak then ['?'] else []) := by
    intro c inside
    split at inside
    · exact signs c (List.mem_cons_of_mem _ inside)
    · cases inside
  exact (process.unseparated.append (sign.append event.unseparated)).append mark

theorem Readable.unseparated {l : Line} (readable : Readable l) :
    ∀ field ∈ (lineKind l).toList :: lineFields l, Unseparated field := by
  refine List.forall_mem_cons.mpr ⟨(lineKind_token l).unseparated, ?_⟩
  cases l with
  | system id => exact List.forall_mem_singleton.mpr readable
  | process id => exact List.forall_mem_singleton.mpr (IsToken.unseparated readable)
  | event id => exact List.forall_mem_singleton.mpr (IsToken.unseparated readable)
  | clock id size =>
      exact List.forall_mem_cons.mpr ⟨unseparated_int size,
        List.forall_mem_singleton.mpr (IsToken.unseparated readable)⟩
  | intvar min max init id size =>
      refine List.forall_mem_cons.mpr ⟨unseparated_int size, ?_⟩
      refine List.forall_mem_cons.mpr ⟨unseparated_int min, ?_⟩
      refine List.forall_mem_cons.mpr ⟨unseparated_int max, ?_⟩
      refine List.forall_mem_cons.mpr ⟨unseparated_int init, ?_⟩
      exact List.forall_mem_singleton.mpr (IsToken.unseparated readable)
  | location process id attr =>
      obtain ⟨process, id, _⟩ := readable
      exact List.forall_mem_cons.mpr ⟨process.unseparated, List.forall_mem_singleton.mpr id.unseparated⟩
  | edge process src tgt event attr =>
      obtain ⟨process, src, tgt, event, _⟩ := readable
      refine List.forall_mem_cons.mpr ⟨process.unseparated, ?_⟩
      refine List.forall_mem_cons.mpr ⟨src.unseparated, ?_⟩
      exact List.forall_mem_cons.mpr ⟨tgt.unseparated, List.forall_mem_singleton.mpr event.unseparated⟩
  | sync vector =>
      intro field listed
      obtain ⟨x, member, rfl⟩ := List.mem_map.mp listed
      exact unseparated_element (readable x member).1 (readable x member).2

/-- The fields of a line are read back. -/
theorem readFields_lineFields {l : Line} (readable : Readable l) :
    match lineAttributes l with
    | none => readPlain (lineKind l) (lineFields l) = some l
    | some attr => readAttributed attr (lineKind l) (lineFields l) = some l := by
  cases l with
  | system id => exact congrArg (some ∘ Line.system) (String.ofList_toList)
  | process id => exact congrArg (Option.map Line.process) (readToken_toList readable)
  | event id => exact congrArg (Option.map Line.event) (readToken_toList readable)
  | clock id size =>
      change (readInt _ >>= fun size => readToken _ >>= fun id => _) = _
      rw [readInt_toString, readToken_toList readable]
      rfl
  | intvar min max init id size =>
      change (readInt _ >>= fun size => readInt _ >>= fun min => readInt _ >>= fun max =>
        readInt _ >>= fun init => readToken _ >>= fun id => _) = _
      rw [readInt_toString, readInt_toString, readInt_toString, readInt_toString,
        readToken_toList readable]
      rfl
  | location process id attr =>
      obtain ⟨process', id', _⟩ := readable
      change (readToken _ >>= fun process => readToken _ >>= fun id => _) = _
      rw [readToken_toList process', readToken_toList id']
      rfl
  | edge process src tgt event attr =>
      obtain ⟨process', src', tgt', event', _⟩ := readable
      change (readToken _ >>= fun process => readToken _ >>= fun src => readToken _ >>= fun tgt =>
        readToken _ >>= fun event => _) = _
      rw [readToken_toList process', readToken_toList src', readToken_toList tgt',
        readToken_toList event']
      rfl
  | sync vector => exact congrArg (Option.map Line.sync) (readElements_render readable)

theorem not_mem_intercalate {c : Char} {fields : List (List Char)} (other : c ≠ ':')
    (free : ∀ field ∈ fields, c ∉ field) : c ∉ [':'].intercalate fields := by
  induction fields with
  | nil => exact List.not_mem_nil
  | cons field rest ih =>
      have first := free field List.mem_cons_self
      have later := ih fun field' listed => free field' (List.mem_cons_of_mem _ listed)
      cases rest with
      | nil => rwa [List.intercalate_singleton]
      | cons field' rest =>
          rw [List.intercalate_cons_cons]
          simp [first, later, other]

theorem not_mem_attributesText {l : Line} (readable : Readable l) {c : Char}
    (special : c ∈ ['#', '\n']) : c ∉ attributesText (lineAttributes l) := by
  have separator : c ∈ separators := by
    rcases List.mem_pair.mp special with rfl | rfl <;> decide
  have others : c ≠ ':' ∧ c ≠ '\x7b' ∧ c ≠ '\x7d' := by
    rcases List.mem_pair.mp special with rfl | rfl <;> decide
  cases given : lineAttributes l with
  | none => exact List.not_mem_nil
  | some attr =>
      have inner : c ∉ [':'].intercalate (attributeFields attr) := by
        apply not_mem_intercalate others.1
        intro field listed
        obtain ⟨kv, member, one⟩ := List.mem_flatMap.mp listed
        have both := readable.attributes given kv member
        rcases List.mem_pair.mp one with rfl | rfl
        · exact both.1.not_mem separator
        · exact both.2.not_mem separator
      rw [attributesText, toList_renderAttributes]
      simp [inner, others]

/-- A line contains neither the sign of a comment nor an end of line. -/
theorem not_mem_render {l : Line} (readable : Readable l) {c : Char} (special : c ∈ ['#', '\n']) :
    c ∉ (render l).toList := by
  have separator : c ∈ separators := by
    rcases List.mem_pair.mp special with rfl | rfl <;> decide
  have other : c ≠ ':' := by
    rcases List.mem_pair.mp special with rfl | rfl <;> decide
  rw [toList_render, List.mem_append, not_or]
  refine ⟨not_mem_intercalate other fun field listed => ?_, not_mem_attributesText readable special⟩
  exact (readable.unseparated field listed).not_mem separator

/-- A line is read back as what it was written from. -/
theorem readLine_render {l : Line} (readable : Readable l) : readLine (render l).toList = some l := by
  have clean := readable.unseparated
  have noBrace : ∀ c ∈ [':'].intercalate ((lineKind l).toList :: lineFields l), c ≠ '\x7b' := by
    rintro c inside rfl
    exact not_mem_intercalate (by decide)
      (fun field listed => (clean field listed).not_mem (by decide)) inside
  have split : ([':'].intercalate ((lineKind l).toList :: lineFields l)).splitOn ':' =
      (lineKind l).toList :: lineFields l :=
    List.splitOn_intercalate ':' (fun field listed => (clean field listed).not_mem (by decide))
      (List.cons_ne_nil _ _)
  have fields := readFields_lineFields readable
  unfold readLine
  rw [toList_render]
  cases given : lineAttributes l with
  | none =>
      rw [given] at fields
      rw [attributesText, List.append_nil, List.takeWhile_eq_self_iff.mpr (by simpa using noBrace),
        List.dropWhile_eq_nil_iff.mpr (by simpa using noBrace), split]
      dsimp only
      rw [String.ofList_toList]
      exact fields
  | some attr =>
      rw [given] at fields
      have starts : attributesText (some attr) =
          '\x7b' :: ([':'].intercalate (attributeFields attr) ++ ['\x7d']) :=
        toList_renderAttributes attr
      have front : ([':'].intercalate ((lineKind l).toList :: lineFields l) ++
          attributesText (some attr)).takeWhile (· ≠ '\x7b') =
            [':'].intercalate ((lineKind l).toList :: lineFields l) := by
        rw [starts, List.takeWhile_append_of_pos (by simpa using noBrace)]
        simp
      have back : ([':'].intercalate ((lineKind l).toList :: lineFields l) ++
          attributesText (some attr)).dropWhile (· ≠ '\x7b') = attributesText (some attr) := by
        rw [starts, List.dropWhile_append_of_pos (by simpa using noBrace)]
        simp
      rw [front, back, split, starts]
      dsimp only
      rw [← starts, attributesText, readAttributes_render (readable.attributes given), String.ofList_toList]
      exact fields

/-! ## Whole files -/

/-- Physical lines that are lines of the format, comments or empty are read one
after the other. -/
theorem readLines_cons {l : Line} (readable : Readable l) (rest : List (List Char)) :
    readLines ((render l).toList :: rest) = (readLines rest).map (l :: ·) := by
  have whole : (render l).toList.takeWhile (· ≠ '#') = (render l).toList := by
    apply List.takeWhile_eq_self_iff.mpr
    intro c inside
    simp only [decide_eq_true_eq]
    rintro rfl
    exact not_mem_render readable (by decide) inside
  have filled : (render l).toList ≠ [] := by
    intro empty
    have read := readLine_render readable
    rw [empty] at read
    cases read
  rw [readLines, whole, if_neg filled, readLine_render readable]
  cases readLines rest <;> rfl

theorem readLines_skip {text : List Char} (skipped : text = [] ∨ ∃ rest, text = '#' :: rest)
    (rest : List (List Char)) : readLines (text :: rest) = readLines rest := by
  have empty : text.takeWhile (· ≠ '#') = [] := by
    rcases skipped with rfl | ⟨rest, rfl⟩
    · rfl
    · exact List.takeWhile_cons_of_neg (by decide)
  rw [readLines, if_pos empty]

end Utot.Tchecker
