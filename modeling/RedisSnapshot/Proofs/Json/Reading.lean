import RedisSnapshot.Json
import RedisSnapshot.Proofs.Json.Number
import RedisSnapshot.Proofs.Text.Utf8

/-!
# Documents are read back

What a document is written as is a JSON text, and it is read as that document: strings with all their
characters, numbers as their tokens, items and members in their order. The induction is on the
document. What stands behind a value in a text is a comma, a bracket or nothing, so that not even a
number goes on there.
-/

namespace RedisSnapshot

namespace Json

/-! ### Documents and their parts -/

mutual

/-- What the text of a document says. A number that JSON has no notation of is absent. -/
def document : Json → Document
  | null => .null
  | bool value => .bool value
  | integer value => .number (Decimal.intText value)
  | number value =>
      if value.isNaN || value.isInfinite then .null else .number (Binary64.json.text value)
  | string text => .string text
  | array items => .array (documents items)
  | object members => .object (memberDocuments members)

def documents : List Json → List Document
  | [] => []
  | item :: items => document item :: documents items

def memberDocuments : List (String × Json) → List (String × Document)
  | [] => []
  | (name, value) :: members => (name, document value) :: memberDocuments members

end

theorem documents_eq (items : List Json) : documents items = items.map document := by
  induction items with
  | nil => rfl
  | cons item items ih => rw [documents, ih, List.map_cons]

theorem memberDocuments_eq (members : List (String × Json)) :
    memberDocuments members = members.map (Prod.map id document) := by
  induction members with
  | nil => rfl
  | cons member members ih => rw [memberDocuments, ih, List.map_cons]; rfl

theorem itemTexts_eq (items : List Json) : itemTexts items = items.map text := by
  induction items with
  | nil => rfl
  | cons item items ih => rw [itemTexts, ih, List.map_cons]

theorem memberTexts_eq (members : List (String × Json)) :
    memberTexts members = members.map fun member => quote member.1 ++ ":" ++ text member.2 := by
  induction members with
  | nil => rfl
  | cons member members ih => rw [memberTexts, ih, List.map_cons]

/-- What holds of a document if it holds of all in it holds of every document. -/
theorem induction {motive : Json → Prop} (null : motive null) (bool : ∀ value, motive (bool value))
    (integer : ∀ value, motive (integer value)) (number : ∀ value, motive (number value))
    (string : ∀ text, motive (string text))
    (array : ∀ items, (∀ item ∈ items, motive item) → motive (array items))
    (object : ∀ members, (∀ member ∈ members, motive member.2) → motive (object members)) :
    ∀ json, motive json :=
  @Json.rec motive (fun items => ∀ item ∈ items, motive item)
    (fun members => ∀ member ∈ members, motive member.2) (fun member => motive member.2) null bool
    integer number string array object (List.forall_mem_nil _)
    (fun _ _ hitem hitems => List.forall_mem_cons.2 ⟨hitem, hitems⟩) (List.forall_mem_nil _)
    (fun _ _ hmember hmembers => List.forall_mem_cons.2 ⟨hmember, hmembers⟩) fun _ _ hvalue => hvalue

/-! ### Strings -/

theorem printable_of_all {text : List Char} (h : text.all (0x20 ≤ ·.toNat) = true) :
    ∀ char ∈ text, 0x20 ≤ char.toNat :=
  fun char hmem => of_decide_eq_true (List.all_eq_true.1 h char hmem)

theorem unit?_control {code : Nat} (h : code < 0x20) (rest : List Char) :
    Document.unit?
      ('0' :: '0' :: Nat.digitChar (code / 16) :: Nat.digitChar (code % 16) :: rest) =
        some (code, rest) := by
  have hdigit : ∀ digit < 16, Document.hexDigit? (Nat.digitChar digit) = some digit := by decide
  have hzero : Document.hexDigit? '0' = some 0 := hdigit 0 (by decide)
  rw [Document.unit?, hzero, hdigit _ (by omega), hdigit _ (by omega)]
  change some (256 * (16 * 0 + 0) + (16 * (code / 16) + code % 16), rest) = some (code, rest)
  rw [Nat.div_add_mod]
  simp

/-- A character is written as itself or as its escape. -/
theorem escapeChar_cases (char : Char) :
    (escapeChar char = [char] ∧ char ≠ '"' ∧ char ≠ '\\' ∧ 0x20 ≤ char.toNat) ∨
      ∃ escape, escapeChar char = '\\' :: escape ∧ (∀ mark ∈ escape, 0x20 ≤ mark.toNat) ∧
        ∀ rest, Document.escaped? (escape ++ rest) = some (char, rest) := by
  unfold escapeChar
  split_ifs with hquote hslash hback hfeed hnewline hreturn htab hcontrol
  · exact .inr ⟨['"'], rfl, printable_of_all rfl, fun rest => by rw [hquote]; rfl⟩
  · exact .inr ⟨['\\'], rfl, printable_of_all rfl, fun rest => by rw [hslash]; rfl⟩
  · exact .inr ⟨['b'], rfl, printable_of_all rfl, fun rest => by rw [hback]; rfl⟩
  · exact .inr ⟨['f'], rfl, printable_of_all rfl, fun rest => by rw [hfeed]; rfl⟩
  · exact .inr ⟨['n'], rfl, printable_of_all rfl, fun rest => by rw [hnewline]; rfl⟩
  · exact .inr ⟨['r'], rfl, printable_of_all rfl, fun rest => by rw [hreturn]; rfl⟩
  · exact .inr ⟨['t'], rfl, printable_of_all rfl, fun rest => by rw [htab]; rfl⟩
  · have hdigit : ∀ digit < 16, 0x20 ≤ (Nat.digitChar digit).toNat := by decide
    have hprintable : ∀ mark ∈ ['u', '0', '0', Nat.digitChar (char.toNat / 16),
        Nat.digitChar (char.toNat % 16)], 0x20 ≤ mark.toNat :=
      List.forall_mem_append.2 ⟨@printable_of_all ['u', '0', '0'] rfl,
        List.forall_mem_cons.2 ⟨hdigit _ (by omega), List.forall_mem_singleton.2 (hdigit _ (by omega))⟩⟩
    refine .inr ⟨_, rfl, hprintable, fun rest => ?_⟩
    rw [List.cons_append, Document.escaped?, if_pos rfl]
    change (Document.unit? ('0' :: '0' :: Nat.digitChar (char.toNat / 16) ::
      Nat.digitChar (char.toNat % 16) :: rest)).bind _ = _
    rw [unit?_control hcontrol, Option.bind_some]
    dsimp only
    rw [if_pos (.inl (by omega)), Char.ofNat_toNat]
    rfl
  · exact .inl ⟨rfl, hquote, hslash, Nat.le_of_not_lt hcontrol⟩

theorem charsWithin?_escaped {chars : List Char} {limit : Nat} (h : chars.length < limit)
    (rest : List Char) :
    Document.charsWithin? limit (chars.flatMap escapeChar ++ '"' :: rest) = some (chars, rest) := by
  induction chars generalizing limit with
  | nil =>
      obtain ⟨limit, rfl⟩ := Nat.exists_eq_add_of_lt h
      rfl
  | cons char chars ih =>
      obtain ⟨limit, rfl⟩ : ∃ fewer, limit = fewer + 1 := ⟨limit - 1, by omega⟩
      have hrest := ih (Nat.lt_of_succ_lt_succ h)
      rw [List.flatMap_cons, List.append_assoc]
      rcases escapeChar_cases char with ⟨hplain, hquote, hslash, hcode⟩ | ⟨escape, hescape, -, hread⟩
      · rw [hplain, List.singleton_append, Document.charsWithin?, if_neg hquote,
          if_neg (Nat.not_lt.2 hcode), if_neg hslash]
        change (Document.charsWithin? limit _).bind _ = _
        rw [hrest]
        rfl
      · rw [hescape, List.cons_append, Document.charsWithin?, if_neg (by decide),
          if_neg (by decide), if_pos rfl, hread]
        change (Document.charsWithin? limit _).bind _ = _
        rw [hrest]
        rfl

theorem escapeChar_ne_nil (char : Char) : escapeChar char ≠ [] := by
  rcases escapeChar_cases char with ⟨hplain, -⟩ | ⟨escape, hescape, -⟩
  · rw [hplain]
    exact List.cons_ne_nil _ _
  · rw [hescape]
    exact List.cons_ne_nil _ _

theorem length_le_escaped (chars : List Char) :
    chars.length ≤ (chars.flatMap escapeChar).length := by
  induction chars with
  | nil => exact Nat.le_refl 0
  | cons char chars ih =>
      have hpositive := List.length_pos_of_ne_nil (escapeChar_ne_nil char)
      rw [List.flatMap_cons, List.length_append, List.length_cons]
      omega

theorem toList_quote (text : String) :
    (quote text).toList = '"' :: (text.toList.flatMap escapeChar ++ ['"']) := by
  rw [quote, String.toList_append, String.toList_append]
  change '"' :: (String.ofList _).toList ++ ['"'] = _
  rw [String.toList_ofList, List.cons_append]

/-- A string that is written is read with all its characters. -/
theorem string?_escaped (text : String) (rest : List Char) :
    Document.string? (text.toList.flatMap escapeChar ++ '"' :: rest) = some (text, rest) := by
  have hlimit : text.toList.length < (text.toList.flatMap escapeChar ++ '"' :: rest).length := by
    have hlength := length_le_escaped text.toList
    rw [List.length_append, List.length_cons]
    omega
  rw [Document.string?, charsWithin?_escaped hlimit]
  change some (String.ofList text.toList, rest) = _
  rw [String.ofList_toList]

theorem printable_quote (text : String) : ∀ char ∈ (quote text).toList, 0x20 ≤ char.toNat := by
  have hescaped : ∀ char ∈ text.toList.flatMap escapeChar, 0x20 ≤ char.toNat := by
    intro mark hmem
    obtain ⟨char, -, hmark⟩ := List.mem_flatMap.1 hmem
    rcases escapeChar_cases char with ⟨hplain, -, -, hcode⟩ | ⟨escape, hescape, hmarks, -⟩
    · rw [hplain, List.mem_singleton] at hmark
      exact hmark ▸ hcode
    · rw [hescape] at hmark
      exact List.forall_mem_cons.2 ⟨by decide, hmarks⟩ mark hmark
  rw [toList_quote]
  exact List.forall_mem_cons.2 ⟨by decide,
    List.forall_mem_append.2 ⟨hescaped, List.forall_mem_singleton.2 (by decide)⟩⟩

end Json

namespace Document

/-! ### What stands between commas -/

/-- A number does not go on here. -/
def Ends (rest : List Char) : Prop :=
  ∀ char ∈ rest.head?, isOfNumber char = false

/-- A text is read as this value, and no further than it goes. -/
def ReadsAs {α : Type} (reader : Reading α) (text : List Char) (value : α) : Prop :=
  ∀ rest, Ends rest → reader (text ++ rest) = some (value, rest)

/-- The text begins with neither a blank nor a closing bracket. -/
def Begins (text : List Char) : Prop :=
  ∃ first rest, text = first :: rest ∧ first ∉ [' ', '\t', '\n', '\r', ']', '\x7d']

theorem ends_nil : Ends [] :=
  fun _ hchar => by cases hchar

theorem ends_cons {first : Char} (h : isOfNumber first = false) (rest : List Char) :
    Ends (first :: rest) :=
  fun _ hchar => Option.some.inj hchar ▸ h

theorem skip_cons {first : Char} (h : first ∉ [' ', '\t', '\n', '\r']) (rest : List Char) :
    skip (first :: rest) = first :: rest :=
  List.dropWhile_cons_of_neg (by simpa using h)

section Brackets

variable {α : Type} {element? : Reading α} {value : α} {close : Char} {input rest : List Char}

theorem apart_of_closing (h : close = ']' ∨ close = '\x7d') :
    close ≠ ',' ∧ close ∉ [' ', '\t', '\n', '\r'] ∧ isOfNumber close = false := by
  rcases h with rfl | rfl
  · decide
  · decide

theorem separated?_last (hclose : close ∉ [' ', '\t', '\n', '\r']) (limit : Nat)
    (helement : element? input = some (value, close :: rest)) :
    separated? element? close (limit + 1) input = some ([value], rest) := by
  rw [separated?, helement]
  dsimp only [bind, Option.bind]
  rw [skip_cons hclose]
  exact if_pos rfl

theorem separated?_comma (hclose : close ≠ ',') {limit : Nat} {values : List α}
    {behind : List Char} (helement : element? input = some (value, ',' :: rest))
    (hlater : separated? element? close limit rest = some (values, behind)) :
    separated? element? close (limit + 1) input = some (value :: values, behind) := by
  rw [separated?, helement]
  dsimp only [bind, Option.bind]
  rw [skip_cons (by decide)]
  dsimp only
  rw [if_neg (Ne.symm hclose), if_pos rfl, hlater]
  rfl

variable {β : Type} {written : β → List Char} {values : β → α} {items : List β}

/-- What stands between brackets is a first element, and others behind commas. -/
theorem intercalate_cons (first : List Char) (others : List (List Char)) :
    [','].intercalate (first :: others) = first ++ others.flatMap (',' :: ·) := by
  induction others generalizing first with
  | nil => rw [List.intercalate_singleton, List.flatMap_nil, List.append_nil]
  | cons next others ih =>
      rw [List.intercalate_cons_cons, ih, List.flatMap_cons, List.append_assoc]
      rfl

theorem separated?_intercalate (hclose : close = ']' ∨ close = '\x7d') (hsome : items ≠ [])
    (hitems : ∀ item ∈ items, ReadsAs element? (written item) (values item)) {limit : Nat}
    (hlimit : items.length ≤ limit) (rest : List Char) :
    separated? element? close limit ([','].intercalate (items.map written) ++ close :: rest) =
      some (items.map values, rest) := by
  obtain ⟨hcomma, hblank, hnumber⟩ := apart_of_closing hclose
  induction items generalizing limit with
  | nil => exact absurd rfl hsome
  | cons item items ih =>
      obtain ⟨limit, rfl⟩ : ∃ fewer, limit = fewer + 1 :=
        Nat.exists_eq_add_of_le' (Nat.le_trans (Nat.succ_pos _) hlimit)
      obtain ⟨hitem, hothers⟩ := List.forall_mem_cons.1 hitems
      cases items with
      | nil =>
          rw [List.map_singleton, List.intercalate_singleton]
          exact separated?_last hblank limit (hitem _ (ends_cons hnumber rest))
      | cons next items =>
          have hlater := ih (List.cons_ne_nil _ _) hothers (Nat.le_of_succ_le_succ hlimit)
          rw [List.map_cons, List.map_cons, List.intercalate_cons_cons, List.append_assoc,
            List.append_assoc, List.singleton_append, ← List.map_cons]
          exact separated?_comma hcomma (hitem _ (ends_cons (by decide) _)) hlater

theorem length_le_intercalate (items : List β) :
    items.length ≤ ([','].intercalate (items.map written)).length + 1 := by
  have hcommas : ∀ parts : List (List Char), parts.length ≤ (parts.flatMap (',' :: ·)).length := by
    intro parts
    induction parts with
    | nil => exact Nat.le_refl 0
    | cons part parts ih =>
        rw [List.flatMap_cons, List.length_append, List.length_cons, List.length_cons]
        omega
  cases items with
  | nil => exact Nat.zero_le _
  | cons item items =>
      have hothers := hcommas (items.map written)
      rw [List.length_map] at hothers
      rw [List.map_cons, intercalate_cons, List.length_append, List.length_cons]
      omega

theorem bracketed?_intercalate (hclose : close = ']' ∨ close = '\x7d')
    (hbegins : ∀ item ∈ items, Begins (written item))
    (hitems : ∀ item ∈ items, ReadsAs element? (written item) (values item)) (rest : List Char) :
    bracketed? element? close ([','].intercalate (items.map written) ++ close :: rest) =
      some (items.map values, rest) := by
  cases items with
  | nil =>
      rw [List.map_nil, List.intercalate_nil, List.nil_append, bracketed?,
        skip_cons (apart_of_closing hclose).2.1]
      exact if_pos rfl
  | cons item items =>
      have hlimit : (item :: items).length ≤
          ([','].intercalate ((item :: items).map written) ++ close :: rest).length := by
        have hlength := @length_le_intercalate _ written (item :: items)
        rw [List.length_append, List.length_cons (a := close)]
        omega
      have hread := separated?_intercalate hclose (List.cons_ne_nil _ _) hitems hlimit rest
      -- What comes is not the end of the list, for no element begins like it.
      obtain ⟨first, others, hfirst, hmark⟩ := hbegins item List.mem_cons_self
      obtain ⟨behind, hbehind⟩ : ∃ behind,
          [','].intercalate ((item :: items).map written) ++ close :: rest = first :: behind :=
        ⟨_, by rw [List.map_cons, intercalate_cons, hfirst]; rfl⟩
      rw [hbehind] at hread ⊢
      simp only [List.mem_cons, List.not_mem_nil, or_false, not_or] at hmark
      rw [bracketed?, skip_cons (by simp [hmark])]
      refine (if_neg ?_).trans hread
      rcases hclose with rfl | rfl
      · exact hmark.2.2.2.2.1
      · exact hmark.2.2.2.2.2

theorem readsAs_member {value? : Reading α} {text : List Char} (h : ReadsAs value? text value)
    (name : String) :
    ReadsAs (member? value?) ((Json.quote name).toList ++ ':' :: text) (name, value) := by
  intro rest hrest
  rw [Json.toList_quote, List.append_assoc, List.cons_append, List.append_assoc,
    List.singleton_append, member?, skip_cons (by decide)]
  change (string? _).bind _ = _
  rw [Json.string?_escaped, Option.bind_some]
  dsimp only [List.cons_append]
  rw [skip_cons (by decide)]
  change (value? (text ++ rest)).bind _ = _
  rw [h rest hrest]
  rfl

end Brackets

/-! ### Whole texts -/

section Values

variable {depth : Nat}

theorem readsAs_word (value : Bool) :
    ReadsAs (valueWithin? (depth + 1)) (Json.bool value).text.toList (.bool value) := by
  intro rest _
  cases value with
  | false => rfl
  | true => rfl

theorem readsAs_null : ReadsAs (valueWithin? (depth + 1)) "null".toList null :=
  fun _ _ => rfl

/-- The first character of a number is none that something else begins with. -/
theorem IsToken.exists_first {token : List Char} (h : IsToken token) :
    ∃ first rest, token = first :: rest ∧ (first = '-' ∨ first.isDigit = true) ∧
      ∀ mark ∈ [' ', '\t', '\n', '\r', ']', '\x7d', '"', '[', '\x7b'], first ≠ mark := by
  have hall : [' ', '\t', '\n', '\r', ']', '\x7d', '"', '[', '\x7b'].all
      (fun mark => ¬ (mark = '-' ∨ mark.isDigit = true)) = true :=
    rfl
  obtain ⟨first, rest, hcons, hfirst⟩ := h.exists_cons
  exact ⟨first, rest, hcons, hfirst, fun mark hmem heq =>
    of_decide_eq_true (List.all_eq_true.1 hall mark hmem) (heq ▸ hfirst)⟩

theorem readsAs_token {token : String} (h : IsToken token.toList) :
    ReadsAs (valueWithin? (depth + 1)) token.toList (number token) := by
  intro rest hrest
  have hnumber := number?_token h hrest
  obtain ⟨first, others, hcons, hfirst, hother⟩ := h.exists_first
  rw [String.ofList_toList, hcons] at hnumber
  rw [hcons, List.cons_append, valueWithin?,
    skip_cons fun hmem => hother first (List.mem_append_left [']', '\x7d', '"', '[', '\x7b'] hmem) rfl]
  dsimp only
  rw [if_neg (hother '"' (by decide)), if_neg (hother '[' (by decide)),
    if_neg (hother '\x7b' (by decide)), if_pos hfirst]
  exact hnumber

theorem readsAs_quote (text : String) :
    ReadsAs (valueWithin? (depth + 1)) (Json.quote text).toList (string text) := by
  intro rest _
  rw [Json.toList_quote, List.cons_append, List.append_assoc, List.singleton_append]
  change (string? _).map _ = _
  rw [Json.string?_escaped]
  rfl

variable {β : Type} {written : β → List Char} {items : List β}

theorem readsAs_array {values : β → Document} (hbegins : ∀ item ∈ items, Begins (written item))
    (hitems : ∀ item ∈ items, ReadsAs (valueWithin? depth) (written item) (values item)) :
    ReadsAs (valueWithin? (depth + 1)) ('[' :: ([','].intercalate (items.map written) ++ [']']))
      (array (items.map values)) := by
  intro rest _
  rw [List.cons_append, List.append_assoc, List.singleton_append]
  change (bracketed? _ ']' _).map _ = _
  rw [bracketed?_intercalate (.inl rfl) hbegins hitems]
  rfl

theorem readsAs_object {values : β → String × Document}
    (hbegins : ∀ item ∈ items, Begins (written item))
    (hitems : ∀ item ∈ items, ReadsAs (member? (valueWithin? depth)) (written item) (values item)) :
    ReadsAs (valueWithin? (depth + 1))
      ('\x7b' :: ([','].intercalate (items.map written) ++ ['\x7d'])) (object (items.map values)) := by
  intro rest _
  rw [List.cons_append, List.append_assoc, List.singleton_append]
  change (bracketed? _ '\x7d' _).map _ = _
  rw [bracketed?_intercalate (.inr rfl) hbegins hitems]
  rfl

end Values

end Document

namespace Json

/-! ### Whole documents -/

/-- A member as it is written. -/
def memberText (member : String × Json) : List Char :=
  (quote member.1).toList ++ ':' :: (text member.2).toList

theorem toList_array (items : List Json) :
    (array items).text.toList =
      '[' :: ([','].intercalate (items.map fun item => item.text.toList) ++ [']']) := by
  rw [text, itemTexts_eq, String.toList_append, String.toList_append, String.toList_intercalate,
    List.map_map]
  rfl

theorem toList_object (members : List (String × Json)) :
    (object members).text.toList =
      '\x7b' :: ([','].intercalate (members.map memberText) ++ ['\x7d']) := by
  have hmember : String.toList ∘ (fun member => quote member.1 ++ ":" ++ text member.2) =
      memberText := by
    funext member
    rw [Function.comp, String.toList_append, String.toList_append, List.append_assoc]
    rfl
  rw [text, memberTexts_eq, String.toList_append, String.toList_append, String.toList_intercalate,
    List.map_map, hmember]
  rfl

theorem begins_token {token : List Char} (h : Document.IsToken token) : Document.Begins token := by
  obtain ⟨first, rest, hcons, -, hother⟩ := h.exists_first
  exact ⟨first, rest, hcons, fun hmem =>
    hother first (List.mem_append_left ['"', '[', '\x7b'] hmem) rfl⟩

theorem begins_quote (name : String) (rest : List Char) :
    Document.Begins ((quote name).toList ++ rest) := by
  rw [toList_quote]
  exact ⟨'"', _, rfl, by decide⟩

theorem begins_text (json : Json) : Document.Begins json.text.toList := by
  cases json with
  | null => exact ⟨'n', _, rfl, by decide⟩
  | bool value =>
      cases value with
      | false => exact ⟨'f', _, rfl, by decide⟩
      | true => exact ⟨'t', _, rfl, by decide⟩
  | integer value => exact begins_token (Document.isToken_intText value)
  | number value =>
      rw [text, numberText]
      split
      · exact ⟨'n', _, rfl, by decide⟩
      · rename_i hnumber
        rw [Bool.not_eq_true, Bool.or_eq_false_iff] at hnumber
        exact begins_token (Document.isToken_json hnumber.1 hnumber.2)
  | string text =>
      have hbegins := begins_quote text []
      rwa [List.append_nil] at hbegins
  | array items =>
      rw [toList_array]
      exact ⟨'[', _, rfl, by decide⟩
  | object members =>
      rw [toList_object]
      exact ⟨'\x7b', _, rfl, by decide⟩

/-- What is between the brackets is at least as long as each of its elements. -/
theorem length_le_of_mem {β : Type} {written : β → List Char} {items : List β} {item : β}
    (h : item ∈ items) : (written item).length ≤ ([','].intercalate (items.map written)).length := by
  cases items with
  | nil => exact absurd h List.not_mem_nil
  | cons first items =>
      rw [List.map_cons, Document.intercalate_cons, List.length_append]
      rcases List.mem_cons.1 h with rfl | hmem
      · exact Nat.le_add_right _ _
      · have hpart : ',' :: written item ∈ (items.map written).map (',' :: ·) :=
          List.mem_map.2 ⟨_, List.mem_map.2 ⟨item, hmem, rfl⟩, rfl⟩
        have hlength := (List.sublist_flatten_of_mem hpart).length_le
        rw [List.length_cons, ← List.flatMap_def] at hlength
        omega

/-- **Documents are read back.** -/
theorem readsAs_text (json : Json) : ∀ {depth : Nat}, json.text.toList.length ≤ depth →
    Document.ReadsAs (Document.valueWithin? depth) json.text.toList json.document := by
  have hdepth : ∀ (json : Json) {depth : Nat}, json.text.toList.length ≤ depth →
      ∃ fewer, depth = fewer + 1 := by
    intro json depth hlength
    obtain ⟨first, rest, hcons, -⟩ := json.begins_text
    rw [hcons] at hlength
    exact Nat.exists_eq_add_of_le' (Nat.le_trans (Nat.succ_pos _) hlength)
  induction json using Json.induction with
  | null =>
      intro depth hlength
      obtain ⟨depth, rfl⟩ := hdepth _ hlength
      exact Document.readsAs_null
  | bool value =>
      intro depth hlength
      obtain ⟨depth, rfl⟩ := hdepth _ hlength
      exact Document.readsAs_word value
  | integer value =>
      intro depth hlength
      obtain ⟨depth, rfl⟩ := hdepth _ hlength
      exact Document.readsAs_token (Document.isToken_intText value)
  | number value =>
      intro depth hlength
      obtain ⟨depth, rfl⟩ := hdepth _ hlength
      rw [text, numberText, document]
      split
      · exact Document.readsAs_null
      · rename_i hnumber
        rw [Bool.not_eq_true, Bool.or_eq_false_iff] at hnumber
        exact Document.readsAs_token (Document.isToken_json hnumber.1 hnumber.2)
  | string text =>
      intro depth hlength
      obtain ⟨depth, rfl⟩ := hdepth _ hlength
      exact Document.readsAs_quote text
  | array items ih =>
      intro depth hlength
      obtain ⟨depth, rfl⟩ := hdepth _ hlength
      rw [toList_array] at hlength ⊢
      rw [document, documents_eq]
      refine Document.readsAs_array (fun item _ => item.begins_text) fun item hitem => ih item hitem ?_
      -- The brackets are not part of an item, so its text is no longer than the depth that is left.
      have hle := @length_le_of_mem _ (fun item => item.text.toList) _ _ hitem
      rw [List.length_cons, List.length_append] at hlength
      omega
  | object members ih =>
      intro depth hlength
      obtain ⟨depth, rfl⟩ := hdepth _ hlength
      rw [toList_object] at hlength ⊢
      rw [document, memberDocuments_eq]
      refine Document.readsAs_object (fun member _ => begins_quote _ _) fun member hmember =>
        Document.readsAs_member (ih member hmember ?_) _
      have hle := @length_le_of_mem _ memberText _ _ hmember
      rw [List.length_cons, List.length_append] at hlength
      rw [memberText, List.length_append, List.length_cons] at hle
      omega

theorem read?_text (json : Json) : Document.read? json.text.toList = some json.document := by
  have hread := json.readsAs_text (Nat.le_refl _) [] Document.ends_nil
  rw [List.append_nil] at hread
  rw [Document.read?, hread]
  rfl

theorem forall_mem_intercalate {β : Type} {written : β → List Char} {items : List β}
    {p : Char → Prop} (hcomma : p ',') (h : ∀ item ∈ items, ∀ char ∈ written item, p char) :
    ∀ char ∈ [','].intercalate (items.map written), p char := by
  cases items with
  | nil => exact List.forall_mem_nil _
  | cons first items =>
      obtain ⟨hfirst, hitems⟩ := List.forall_mem_cons.1 h
      rw [List.map_cons, Document.intercalate_cons, List.flatMap_map]
      refine List.forall_mem_append.2 ⟨hfirst, fun char hmem => ?_⟩
      obtain ⟨item, hitem, hchar⟩ := List.mem_flatMap.1 hmem
      exact List.forall_mem_cons.2 ⟨hcomma, hitems item hitem⟩ char hchar

theorem printable_token {token : List Char} (h : Document.IsToken token) :
    ∀ char ∈ token, 0x20 ≤ char.toNat := by
  intro char hmem
  have hnumber := h.isOfNumber char hmem
  rw [Document.isOfNumber, Bool.or_eq_true, decide_eq_true_iff] at hnumber
  rcases hnumber with hdigit | hmark
  · rw [Char.isDigit, Bool.and_eq_true, decide_eq_true_iff] at hdigit
    exact Nat.le_trans (by decide) hdigit.1
  · exact printable_of_all rfl char hmark

/-- A text has no control characters, and so no line ends. -/
theorem printable_text (json : Json) : ∀ char ∈ json.text.toList, 0x20 ≤ char.toNat := by
  induction json using Json.induction with
  | null => exact printable_of_all rfl
  | bool value =>
      cases value with
      | false => exact printable_of_all rfl
      | true => exact printable_of_all rfl
  | integer value => exact printable_token (Document.isToken_intText value)
  | number value =>
      rw [text, numberText]
      split
      · exact printable_of_all rfl
      · rename_i hnumber
        rw [Bool.not_eq_true, Bool.or_eq_false_iff] at hnumber
        exact printable_token (Document.isToken_json hnumber.1 hnumber.2)
  | string text => exact printable_quote text
  | array items ih =>
      rw [toList_array]
      exact List.forall_mem_cons.2 ⟨by decide, List.forall_mem_append.2
        ⟨forall_mem_intercalate (by decide) ih, List.forall_mem_singleton.2 (by decide)⟩⟩
  | object members ih =>
      rw [toList_object]
      refine List.forall_mem_cons.2 ⟨by decide, List.forall_mem_append.2
        ⟨forall_mem_intercalate (by decide) fun member hmember => ?_,
          List.forall_mem_singleton.2 (by decide)⟩⟩
      exact List.forall_mem_append.2
        ⟨printable_quote _, List.forall_mem_cons.2 ⟨by decide, ih member hmember⟩⟩

theorem ofBytes?_text (json : Json) :
    Document.ofBytes? (Text.bytes json.text) = some json.document := by
  rw [Document.ofBytes?, Text.strict?_bytes, Option.bind_some, read?_text]

end Json

end RedisSnapshot
