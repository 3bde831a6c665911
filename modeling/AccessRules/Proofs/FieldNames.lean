import AccessRules.Proofs.CheckReading
import AccessRules.Proofs.Emission
import AccessRules.Proofs.QuotedTexts

/-! Field names in single quotes. Checks put the names of fields between quotes as they are, while
the rule language ends a literal at the first bare quote and reads a backslash as an escape. So a
check is read back as its fields exactly if no name has a quote or a backslash, and a name that holds
the text between two literals passes for two names. -/
namespace AccessRules
namespace Text

def isBare (cs : List Char) : Bool := cs.all fun c => c ≠ '\'' && c ≠ '\\'

theorem isBare_cons {c : Char} {cs : List Char} :
    isBare (c :: cs) = true ↔ (c ≠ '\'' ∧ c ≠ '\\') ∧ isBare cs = true := by
  simp [isBare]

theorem isBare_iff {cs : List Char} : isBare cs = true ↔ '\'' ∉ cs ∧ '\\' ∉ cs := by
  simp only [isBare, List.all_eq_true, Bool.and_eq_true, decide_eq_true_eq]
  grind

theorem singleQuoted_of_isBare {cs : List Char} (h : isBare cs = true) : singleQuoted cs = cs := by
  induction cs with
  | nil => rfl
  | cons c cs ih =>
    obtain ⟨⟨hquote, hslash⟩, hcs⟩ := isBare_cons.1 h
    have hc : singleQuotedChar c = [c] := by simp [singleQuotedChar, hquote, hslash]
    have hrest : cs.flatMap singleQuotedChar = cs := ih hcs
    rw [singleQuoted, List.flatMap_cons, hc, hrest, List.singleton_append]

theorem quotedRest_of_isBare {cs : List Char} (h : isBare cs = true) (rest : List Char) :
    quotedRest (cs ++ '\'' :: rest) = some (cs, rest) := by
  have hread := quotedRest_singleQuoted cs rest
  rwa [singleQuoted_of_isBare h] at hread

theorem pushRead_eq_some {c : Char} {read : Option (List Char × List Char)}
    {text rest : List Char} (h : pushRead c read = some (text, rest)) :
    ∃ more, read = some (more, rest) ∧ text = c :: more := by
  obtain ⟨⟨more, r⟩, hread, hpair⟩ := Option.map_eq_some_iff.1 h
  simp only [Prod.mk.injEq] at hpair
  obtain ⟨rfl, rfl⟩ := hpair
  exact ⟨more, hread, rfl⟩

/-- A literal takes up a character for each one that is read from it and one for its closing quote,
and no more than that only if the text is bare. -/
theorem length_of_quotedRest {cs text rest : List Char} (h : quotedRest cs = some (text, rest)) :
    text.length + rest.length + 1 ≤ cs.length ∧
      (cs.length ≤ text.length + rest.length + 1 → isBare text = true) := by
  fun_induction quotedRest cs generalizing text with
  | case1 => simp at h
  | case2 r =>
    simp only [Option.some.injEq, Prod.mk.injEq] at h
    obtain ⟨rfl, rfl⟩ := h
    simp [isBare]
  | case3 => simp at h
  | case4 c r ih =>
    obtain ⟨more, hmore, rfl⟩ := pushRead_eq_some h
    obtain ⟨hle, -⟩ := ih hmore
    simp only [List.length_cons]
    omega
  | case5 c r hquote hend hslash ih =>
    obtain ⟨more, hmore, rfl⟩ := pushRead_eq_some h
    obtain ⟨hle, hbare⟩ := ih hmore
    have hc : c ≠ '\\' := by
      rintro rfl
      cases r with
      | nil => exact hend rfl rfl
      | cons d r => exact hslash d r rfl rfl
    simp only [List.length_cons, isBare_cons]
    exact ⟨by omega, fun hlength => ⟨⟨hquote, hc⟩, hbare (by omega)⟩⟩

def literal (text : List Char) : List Char := '\'' :: (text ++ ['\''])

/-- Literals with commas between them, and a bracket at the end. -/
def listed (texts : List (List Char)) : List Char :=
  ", ".toList.intercalate (texts.map literal) ++ [']']

theorem listed_nil : listed [] = [']'] := rfl

theorem listed_singleton (text : List Char) :
    listed [text] = '\'' :: (text ++ '\'' :: [']']) := by
  simp [listed, literal]

theorem listed_cons_cons (text next : List Char) (more : List (List Char)) :
    listed (text :: next :: more) =
      '\'' :: (text ++ '\'' :: (',' :: ' ' :: listed (next :: more))) := by
  simp only [listed, List.map_cons, List.intercalate_cons_cons, literal, List.append_assoc,
    List.cons_append, List.nil_append]
  rfl

def literalsTo (cs : List Char) : Option (List (List Char)) :=
  match cs with
  | '\'' :: inside =>
    match _h : quotedRest inside with
    | some (text, [']']) => some [text]
    | some (text, ',' :: ' ' :: more) => (literalsTo more).map (text :: ·)
    | _ => none
  | _ => none
termination_by cs.length
decreasing_by
  have hlength := (length_of_quotedRest _h).1
  simp only [List.length_cons] at hlength ⊢
  omega

def literals? : List Char → Option (List (List Char))
  | ['[', ']'] => some []
  | '[' :: inner => literalsTo inner
  | _ => none

theorem literalsTo_last {inside text : List Char} (h : quotedRest inside = some (text, [']'])) :
    literalsTo ('\'' :: inside) = some [text] := by
  rw [literalsTo]
  split <;> simp_all

theorem literalsTo_cons {inside text more : List Char}
    (h : quotedRest inside = some (text, ',' :: ' ' :: more)) :
    literalsTo ('\'' :: inside) = (literalsTo more).map (text :: ·) := by
  rw [literalsTo]
  split <;> simp_all

theorem literalsTo_listed {texts : List (List Char)} (hne : texts ≠ [])
    (h : ∀ text ∈ texts, isBare text = true) : literalsTo (listed texts) = some texts := by
  induction texts with
  | nil => exact absurd rfl hne
  | cons text texts ih =>
    have htext : isBare text = true := h text (by simp)
    cases texts with
    | nil => rw [listed_singleton, literalsTo_last (quotedRest_of_isBare htext _)]
    | cons next more =>
      have hmore := ih (by simp) fun u hu => h u (by simp [hu])
      rw [listed_cons_cons, literalsTo_cons (quotedRest_of_isBare htext _), hmore, Option.map_some]

theorem length_of_literalsTo {cs : List Char} {texts : List (List Char)}
    (h : literalsTo cs = some texts) :
    (listed texts).length ≤ cs.length ∧
      (cs.length ≤ (listed texts).length → ∀ text ∈ texts, isBare text = true) := by
  fun_induction literalsTo cs generalizing texts with
  | case1 inside text hread =>
    obtain rfl := Option.some.inj h
    obtain ⟨hle, hbare⟩ := length_of_quotedRest hread
    simp only [listed_singleton, List.length_cons, List.length_append, List.length_nil,
      List.forall_mem_singleton] at hle hbare ⊢
    exact ⟨by omega, fun hlength => hbare (by omega)⟩
  | case2 inside text more hread ih =>
    obtain ⟨rest, hrest, rfl⟩ := Option.map_eq_some_iff.1 h
    obtain ⟨hle, hbare⟩ := length_of_quotedRest hread
    obtain ⟨hleRest, hbareRest⟩ := ih hrest
    cases rest with
    | nil =>
      simp only [listed_singleton, listed_nil, List.length_cons, List.length_append,
        List.length_nil] at hle hleRest ⊢
      omega
    | cons next rest =>
      simp only [listed_cons_cons, List.length_cons, List.length_append,
        List.forall_mem_cons] at hle hbare hleRest hbareRest ⊢
      exact ⟨by omega, fun hlength => ⟨hbare (by omega), hbareRest (by omega)⟩⟩
  | case3 => simp at h
  | case4 => simp at h

/-- A list of quoted texts is read as these texts exactly if all of them are bare. -/
theorem literals?_listed_iff {texts : List (List Char)} :
    literals? ('[' :: listed texts) = some texts ↔ ∀ text ∈ texts, isBare text = true := by
  cases texts with
  | nil => simp [listed_nil, literals?]
  | cons text texts =>
    have hinner : literals? ('[' :: listed (text :: texts)) =
        literalsTo (listed (text :: texts)) := by
      rw [literals?]
      intro hnil
      cases texts with
      | nil => simp [listed_singleton] at hnil
      | cons next more => simp [listed_cons_cons] at hnil
    rw [hinner]
    exact ⟨fun h => (length_of_literalsTo h).2 (Nat.le_refl _), literalsTo_listed (by simp)⟩

/-- What stands between the insides of two literals of a list. -/
def divider : List Char := "', '".toList

/-- Some literals are one literal of all texts with dividers in between. -/
theorem listed_eq {texts : List (List Char)} (hne : texts ≠ []) :
    listed texts = literal (divider.intercalate texts) ++ [']'] := by
  induction texts with
  | nil => exact absurd rfl hne
  | cons text texts ih =>
    cases texts with
    | nil => simp [listed]
    | cons next more =>
      have hmore := ih (by simp)
      rw [listed_cons_cons, hmore, List.intercalate_cons_cons]
      simp [literal, divider]

theorem intercalate_divider_cons_cons (text next : List Char) (more : List (List Char)) :
    divider.intercalate (text :: next :: more) =
      text ++ '\'' :: (", '".toList ++ divider.intercalate (next :: more)) := by
  have hdivider : divider = '\'' :: ", '".toList := by decide
  rw [List.intercalate_cons_cons, hdivider, List.append_assoc, List.cons_append]

theorem intercalate_divider_inj {texts others : List (List Char)} (hne : texts ≠ [])
    (hother : others ≠ []) (htexts : ∀ text ∈ texts, '\'' ∉ text)
    (hothers : ∀ text ∈ others, '\'' ∉ text)
    (h : divider.intercalate texts = divider.intercalate others) : texts = others := by
  have hclass {text : List Char} (ht : '\'' ∉ text) : ∀ c ∈ text, c ≠ '\'' := by
    rintro c hc rfl
    exact ht hc
  induction texts generalizing others with
  | nil => exact absurd rfl hne
  | cons text more ih =>
    have htext : '\'' ∉ text := htexts text (by simp)
    match more, others with
    | _, [] => exact absurd rfl hother
    | [], [other] => simpa using h
    | [], other :: next :: _ =>
      rw [intercalate_divider_cons_cons, List.intercalate_singleton] at h
      exact absurd (by simp [h]) htext
    | next :: _, [other] =>
      rw [intercalate_divider_cons_cons, List.intercalate_singleton] at h
      exact absurd (by simp [← h]) (hothers other (by simp))
    | next :: more, other :: second :: others =>
      rw [intercalate_divider_cons_cons, intercalate_divider_cons_cons] at h
      obtain ⟨rfl, -, hrest⟩ := append_cons_inj (hclass htext) (hclass (hothers other (by simp)))
        (by simp) (by simp) h
      have hmore : next :: more = second :: others :=
        ih (by simp) (by simp) (fun t ht => htexts t (by simp [ht]))
          (fun t ht => hothers t (by simp [ht])) (List.append_cancel_left hrest)
      rw [hmore]

theorem listed_inj_iff {texts others : List (List Char)} (hne : texts ≠ []) (hother : others ≠ []) :
    listed texts = listed others ↔ divider.intercalate texts = divider.intercalate others := by
  rw [listed_eq hne, listed_eq hother]
  simp [literal]

end Text
open Text

/-- Reads a test on the set of fields, whose names may be any literals. -/
def Check.literalKeys? (s : String) : Option Check := do
  let call ← s.toList.dropPrefix? "request.resource.data.keys().".toList
  let fields? (test : String) : Option (List String) :=
    ((arguments? test call).bind literals?).map fun names => names.map String.ofList
  (fields? "hasAll").map .hasAll <|> (fields? "hasOnly").map .hasOnly

/-- Reads a call for a field with a default, where the name of the field may be any literal. -/
def Access.literalField? (s : String) : Option Access := do
  let call ← s.toList.dropPrefix? "getOr(request, '".toList
  let read ← quotedRest call
  let default ← enclosed? ' ' ')' (← read.2.dropPrefix? [','])
  return .defaulted (String.ofList read.1) (String.ofList default)

theorem toList_quotedNames (fields : List String) :
    quotedNames fields = (fields.map String.toList).map literal := by
  simp [quotedNames, literal, toList_quotedName]

theorem toList_presenceCheck_eq (fields : List String) (exclusive : Bool) :
    (presenceCheck fields exclusive).toList =
      "request.resource.data.keys().".toList ++ ((presenceTest exclusive).toList ++
        '(' :: (('[' :: listed (fields.map String.toList)) ++ [')'])) := by
  rw [toList_presenceCheck, toList_quotedNames]
  rfl

theorem presenceCheck_inj_iff {fields others : List String} {exclusive : Bool} :
    presenceCheck fields exclusive = presenceCheck others exclusive ↔
      listed (fields.map String.toList) = listed (others.map String.toList) := by
  rw [← String.toList_inj, toList_presenceCheck_eq, toList_presenceCheck_eq]
  simp

theorem Check.literalKeys?_presenceCheck (fields : List String) (exclusive : Bool) :
    literalKeys? (presenceCheck fields exclusive) =
      (literals? ('[' :: listed (fields.map String.toList))).map fun names =>
        ofKeys (names.map String.ofList) exclusive := by
  rw [literalKeys?, toList_presenceCheck_eq, List.dropPrefix?_append_of_beq _ (beq_self_eq_true _),
    Option.bind_eq_bind, Option.bind_some]
  cases exclusive with
  | false =>
    have honly (rest : List Char) : arguments? "hasOnly" ("hasAll".toList ++ rest) = none := by
      simp [arguments?, List.dropPrefix?]
    have htest : presenceTest false = "hasAll" := rfl
    rw [htest]
    simp only [arguments?_append, honly, Option.bind_some, Option.bind_none]
    cases literals? ('[' :: listed (fields.map String.toList)) <;> rfl
  | true =>
    have hall (rest : List Char) : arguments? "hasAll" ("hasOnly".toList ++ rest) = none := by
      simp [arguments?, List.dropPrefix?]
    have htest : presenceTest true = "hasOnly" := rfl
    rw [htest]
    simp only [arguments?_append, hall, Option.bind_some, Option.bind_none]
    cases literals? ('[' :: listed (fields.map String.toList)) <;> rfl

theorem Check.ofKeys_inj {fields others : List String} {exclusive : Bool} :
    ofKeys fields exclusive = ofKeys others exclusive ↔ fields = others := by
  cases exclusive <;> simp [ofKeys]

theorem Check.literalKeys?_presenceCheck_iff {fields : List String} {exclusive : Bool} :
    literalKeys? (presenceCheck fields exclusive) = some (ofKeys fields exclusive) ↔
      ∀ f ∈ fields, isBare f.toList = true := by
  have hnames (names : List (List Char)) :
      names.map String.ofList = fields ↔ names = fields.map String.toList := by
    constructor
    · rintro rfl
      simp
    · rintro rfl
      simp
  rw [literalKeys?_presenceCheck, Option.map_eq_some_iff]
  simp only [ofKeys_inj, hnames, exists_eq_right, literals?_listed_iff, List.forall_mem_map]

theorem toList_defaultedAccess_eq (field : String) (t : ValueType) :
    (defaultedAccess field t).toList = "getOr(request, '".toList ++
      (field.toList ++ '\'' :: ([','] ++ ' ' :: (t.placeholder.toList ++ [')']))) := by
  have hcomma : "', ".toList = ['\'', ',', ' '] := by decide
  have hclose : ")".toList = [')'] := by decide
  unfold defaultedAccess
  simp only [String.toList_append, hcomma, hclose, List.append_assoc, List.cons_append,
    List.nil_append]

theorem Access.literalField?_defaultedAccess_iff {field : String} {t : ValueType} :
    literalField? (defaultedAccess field t) = some (.defaulted field t.placeholder) ↔
      isBare field.toList = true := by
  rw [literalField?, toList_defaultedAccess_eq,
    List.dropPrefix?_append_of_beq _ (beq_self_eq_true _), Option.bind_eq_bind, Option.bind_some]
  constructor
  · intro h
    obtain ⟨⟨name, rest⟩, hread, h⟩ := Option.bind_eq_some_iff.1 h
    obtain ⟨tail, hdrop, h⟩ := Option.bind_eq_some_iff.1 h
    obtain ⟨default, hdefault, h⟩ := Option.bind_eq_some_iff.1 h
    obtain ⟨comma, hrest, hcomma⟩ := List.dropPrefix?_eq_some_iff.1 hdrop
    obtain rfl : comma = [','] := eq_of_beq hcomma
    obtain rfl : rest = [','] ++ tail := hrest
    obtain rfl := enclosed?_eq_some_iff.1 hdefault
    simp only [Option.pure_def, Option.some.injEq, Access.defaulted.injEq] at h
    obtain ⟨rfl, hplaceholder⟩ := h
    rw [← hplaceholder] at hread
    simp only [String.toList_ofList] at hread ⊢
    exact (length_of_quotedRest hread).2 (by simp only [List.length_append, List.length_cons]; omega)
  · intro h
    rw [quotedRest_of_isBare h]
    simp only [Option.bind_eq_bind, Option.bind_some, enclosed?_cons_concat,
      List.dropPrefix?_append_of_beq _ (beq_self_eq_true _), Option.pure_def, String.ofList_toList]

theorem presenceCheck_eq_nil_iff {fields : List String} {exclusive : Bool} :
    presenceCheck fields exclusive = presenceCheck [] exclusive ↔ fields = [] := by
  constructor
  · intro h
    by_contra hne
    rw [presenceCheck_inj_iff, List.map_nil, listed_nil, listed_eq (by simpa using hne)] at h
    simp [literal] at h
  · rintro rfl
    rfl

theorem presenceCheck_eq_iff {fields others : List String} {exclusive : Bool} (hne : fields ≠ [])
    (hother : others ≠ []) :
    presenceCheck fields exclusive = presenceCheck others exclusive ↔
      divider.intercalate (fields.map String.toList) =
        divider.intercalate (others.map String.toList) := by
  rw [presenceCheck_inj_iff, listed_inj_iff (by simpa using hne) (by simpa using hother)]

theorem eq_of_presenceCheck_eq {fields others : List String} {exclusive : Bool}
    (hfields : ∀ f ∈ fields, '\'' ∉ f.toList) (hothers : ∀ f ∈ others, '\'' ∉ f.toList)
    (h : presenceCheck others exclusive = presenceCheck fields exclusive) : others = fields := by
  by_cases hne : fields = []
  · subst hne
    exact presenceCheck_eq_nil_iff.1 h
  by_cases hother : others = []
  · subst hother
    exact (presenceCheck_eq_nil_iff.1 h.symm).symm
  have hlists : others.map String.toList = fields.map String.toList :=
    intercalate_divider_inj (by simpa using hother) (by simpa using hne) (by simpa using hothers)
      (by simpa using hfields) ((presenceCheck_eq_iff hother hne).1 h)
  exact List.map_injective_iff.2 (fun _ _ => String.toList_inj.1) hlists

/-- A list of names shares its text with another list exactly if it has two names or more, or a name
in which the text between two literals occurs. -/
theorem exists_presenceCheck_eq_iff {fields : List String} {exclusive : Bool} :
    (∃ others, others ≠ fields ∧ presenceCheck others exclusive = presenceCheck fields exclusive) ↔
      2 ≤ fields.length ∨ ∃ f ∈ fields, divider <:+: f.toList := by
  match fields with
  | [] => simp [presenceCheck_eq_nil_iff]
  | [f] =>
    simp only [List.length_singleton, List.mem_singleton, exists_eq_left]
    constructor
    · rintro ⟨others, hne, h⟩
      match others with
      | [] => exact absurd (presenceCheck_eq_nil_iff.1 h.symm) (by simp)
      | [g] =>
        rw [presenceCheck_eq_iff (by simp) (by simp)] at h
        have hname : g = f := String.toList_inj.1 (by simpa using h)
        exact absurd hname (by simpa using hne)
      | g :: next :: more =>
        rw [presenceCheck_eq_iff (by simp) (by simp)] at h
        simp only [List.map_cons, List.map_nil, List.intercalate_singleton,
          List.intercalate_cons_cons] at h
        exact .inr ⟨_, _, h⟩
    · rintro (hlength | ⟨before, behind, h⟩)
      · omega
      · refine ⟨[String.ofList before, String.ofList behind], by simp, ?_⟩
        rw [presenceCheck_eq_iff (by simp) (by simp)]
        simp [List.intercalate_cons_cons, ← h]
  | f :: g :: rest =>
    have hlength : 2 ≤ (f :: g :: rest).length := by simp
    refine ⟨fun _ => .inl hlength, fun _ => ⟨(f ++ String.ofList divider ++ g) :: rest, ?_, ?_⟩⟩
    · intro hlists
      have hlengths := congrArg List.length hlists
      simp at hlengths
    · rw [presenceCheck_eq_iff (by simp) (by simp)]
      cases rest <;> simp [List.intercalate_cons_cons]

/-- The check on the set of fields is read back as its fields exactly if no name has a quote or a
backslash, and so is the field of a defaulted access, whatever its type. Lists of names without
quotes have different texts. The text of a list is that of another list as well exactly if the list
has two names or more, which pass for one name, or a name that passes for two. -/
theorem quoted_fields_denote_iff (fields : List String) (exclusive : Bool) (t : ValueType) :
    (Check.literalKeys? (presenceCheck fields exclusive) = some (.ofKeys fields exclusive) ↔
      ∀ f ∈ fields, '\'' ∉ f.toList ∧ '\\' ∉ f.toList) ∧
    (∀ field, Access.literalField? (defaultedAccess field t) =
        some (.defaulted field t.placeholder) ↔ '\'' ∉ field.toList ∧ '\\' ∉ field.toList) ∧
    (∀ others, (∀ f ∈ fields, '\'' ∉ f.toList) → (∀ f ∈ others, '\'' ∉ f.toList) →
      (presenceCheck others exclusive = presenceCheck fields exclusive ↔ others = fields)) ∧
    ((∃ others, others ≠ fields ∧
        presenceCheck others exclusive = presenceCheck fields exclusive) ↔
      2 ≤ fields.length ∨ ∃ f ∈ fields, "', '".toList <:+: f.toList) := by
  simp only [← isBare_iff]
  refine ⟨Check.literalKeys?_presenceCheck_iff, fun field => Access.literalField?_defaultedAccess_iff,
    fun others hfields hothers => ⟨eq_of_presenceCheck_eq hfields hothers, ?_⟩,
    exists_presenceCheck_eq_iff⟩
  rintro rfl
  rfl

/-- One name with a divider passes for two names, and neither it nor the field of its access is read
back; lists of plain names keep apart. -/
theorem quoted_fields_denote_iff_divider :
    presenceCheck ["a', 'b"] false = presenceCheck ["a", "b"] false ∧
      Check.literalKeys? (presenceCheck ["a', 'b"] false) ≠ some (.hasAll ["a', 'b"]) ∧
      Access.literalField? (defaultedAccess "a', 'b" .int) ≠ some (.defaulted "a', 'b" "0") ∧
      (∃ others, others ≠ ["a', 'b"] ∧
        presenceCheck others false = presenceCheck ["a', 'b"] false) ∧
      Check.literalKeys? (presenceCheck ["a", "b"] true) = some (.hasOnly ["a", "b"]) ∧
      presenceCheck ["a"] true ≠ presenceCheck ["a", "b"] true := by
  obtain ⟨hkeys, hfield, -, hshared⟩ := quoted_fields_denote_iff ["a', 'b"] false .int
  obtain ⟨hplain, -, hapart, -⟩ := quoted_fields_denote_iff ["a", "b"] true .int
  have hquote : '\'' ∈ "a', 'b".toList := by decide
  refine ⟨by decide, fun h => ?_, fun h => ?_, hshared.2 (.inr ⟨"a', 'b", by simp, ?_⟩),
    hplain.2 (by decide), fun h => ?_⟩
  · exact (hkeys.1 h "a', 'b" (by simp)).1 hquote
  · exact ((hfield "a', 'b").1 h).1 hquote
  · exact ⟨['a'], ['b'], by decide⟩
  · exact absurd ((hapart ["a"] (by decide) (by decide)).1 h) (by decide)

end AccessRules
