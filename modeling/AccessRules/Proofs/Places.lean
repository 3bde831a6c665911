import AccessRules.Schema.Reference
import AccessRules.Schema.Violation
import Mathlib.Data.List.Nodup

/-! Places in JSON values. A place is a list of steps, and its pointer is the text of the steps. Where
the names of each object are distinct, each member is found by its name; and within one value a
pointer tells the place, although an index and a name may have the same text. -/
namespace AccessRules
namespace Json

def step? : Step → Json → Option Json
  | .item i, .array xs => xs[i]?
  | .item _, _ => none
  | .member name, j => j.get? name

@[simp] theorem at?_nil (j : Json) : j.at? [] = some j := by
  rw [at?]

@[simp] theorem at?_cons (s : Step) (steps : List Step) (j : Json) :
    j.at? (s :: steps) = (j.step? s).bind (at? steps) := by
  cases s with
  | item i => cases j <;> simp [at?, step?]
  | member name => rw [at?, step?]

theorem at?_append (p q : List Step) (j : Json) : j.at? (p ++ q) = (j.at? p).bind (at? q) := by
  induction p generalizing j with
  | nil => simp
  | cons s p ih =>
    rw [List.cons_append, at?_cons, at?_cons]
    cases j.step? s with
    | none => rfl
    | some x => exact ih x

theorem step?_member_eq_some_iff {name : String} {j x : Json} :
    j.step? (.member name) = some x ↔ ∃ ms, j = .object ms ∧ ms.lookup name = some x := by
  cases j <;> simp [step?, get?]

theorem step?_item_eq_some_iff {i : Nat} {j x : Json} :
    j.step? (.item i) = some x ↔ ∃ xs, j = .array xs ∧ xs[i]? = some x := by
  cases j <;> simp [step?]

theorem sizeOf_lt_of_step? {s : Step} {j x : Json} (h : j.step? s = some x) :
    sizeOf x < sizeOf j := by
  cases s with
  | item i =>
    obtain ⟨xs, rfl, hi⟩ := step?_item_eq_some_iff.1 h
    exact sizeOf_item_lt (List.mem_of_getElem? hi)
  | member name => exact sizeOf_lt_of_get? h

section DistinctNames

mutual

/-- Each object in the value has each of its names once. -/
def hasDistinctNames : Json → Bool
  | .array xs => allHaveDistinctNames xs
  | .object ms => decide (ms.map Prod.fst).Nodup && membersHaveDistinctNames ms
  | _ => true

def allHaveDistinctNames : List Json → Bool
  | [] => true
  | x :: xs => hasDistinctNames x && allHaveDistinctNames xs

def membersHaveDistinctNames : List (String × Json) → Bool
  | [] => true
  | (_, x) :: ms => hasDistinctNames x && membersHaveDistinctNames ms

end

theorem hasDistinctNames_array_iff {xs : List Json} :
    hasDistinctNames (.array xs) = true ↔ ∀ x ∈ xs, hasDistinctNames x = true := by
  rw [hasDistinctNames]
  induction xs with
  | nil => simp [allHaveDistinctNames]
  | cons x xs ih => simp [allHaveDistinctNames, ih]

theorem hasDistinctNames_object_iff {ms : List (String × Json)} :
    hasDistinctNames (.object ms) = true ↔
      (ms.map Prod.fst).Nodup ∧ ∀ m ∈ ms, hasDistinctNames m.2 = true := by
  have hmembers : membersHaveDistinctNames ms = true ↔ ∀ m ∈ ms, hasDistinctNames m.2 = true := by
    induction ms with
    | nil => simp [membersHaveDistinctNames]
    | cons m ms ih => simp [membersHaveDistinctNames, ih]
  rw [hasDistinctNames, Bool.and_eq_true, decide_eq_true_eq, hmembers]

variable {j x : Json} {ms : List (String × Json)} {name : String}

theorem lookup_of_mem (h : (ms.map Prod.fst).Nodup) (hmem : (name, x) ∈ ms) :
    ms.lookup name = some x := by
  obtain ⟨before, behind, rfl⟩ := List.append_of_mem hmem
  rw [List.lookup_eq_some_iff]
  refine ⟨before, behind, rfl, fun m hm => ?_⟩
  rw [List.map_append, List.nodup_append] at h
  have hne : m.1 ≠ name := h.2.2 m.1 (List.mem_map_of_mem hm) name (by simp)
  simpa using hne.symm

theorem mem_of_lookup (h : ms.lookup name = some x) : (name, x) ∈ ms := by
  obtain ⟨before, behind, rfl, -⟩ := List.lookup_eq_some_iff.1 h
  simp

theorem hasDistinctNames_of_step? {s : Step} (h : j.hasDistinctNames = true)
    (hx : j.step? s = some x) : x.hasDistinctNames = true := by
  cases s with
  | item i =>
    obtain ⟨xs, rfl, hi⟩ := step?_item_eq_some_iff.1 hx
    exact hasDistinctNames_array_iff.1 h x (List.mem_of_getElem? hi)
  | member name =>
    obtain ⟨ms, rfl, hname⟩ := step?_member_eq_some_iff.1 hx
    exact (hasDistinctNames_object_iff.1 h).2 (name, x) (mem_of_lookup hname)

theorem hasDistinctNames_of_at? {steps : List Step} (h : j.hasDistinctNames = true)
    (hx : j.at? steps = some x) : x.hasDistinctNames = true := by
  induction steps generalizing j with
  | nil =>
    obtain rfl : j = x := by simpa using hx
    exact h
  | cons s steps ih =>
    rw [at?_cons] at hx
    obtain ⟨y, hy, hx⟩ := Option.bind_eq_some_iff.1 hx
    exact ih (hasDistinctNames_of_step? h hy) hx

end DistinctNames

end Json

namespace Step

def nameChar (c : Char) : List Char :=
  if c = '~' then ['~', '0'] else if c = '/' then ['~', '1'] else [c]

def token : Step → List Char
  | .item i => Nat.toDigits 10 i
  | .member name => name.toList.flatMap nameChar

theorem toList_text (s : Step) : s.text.toList = '/' :: s.token := by
  cases s with
  | item i => simp [text, token, Text.decimal]
  | member name =>
    simp only [text, token, String.toList_append, String.toList_ofList]
    rfl

theorem slash_not_mem_token (s : Step) : '/' ∉ s.token := by
  cases s with
  | item i =>
    intro hmem
    exact absurd (Nat.isDigit_of_mem_toDigits (by decide) (by decide) hmem) (by decide)
  | member name =>
    intro hmem
    obtain ⟨c, -, hc⟩ := List.mem_flatMap.1 hmem
    unfold nameChar at hc
    split at hc
    · simp at hc
    · split at hc
      · simp at hc
      · next hslash => exact hslash (List.mem_singleton.1 hc).symm

theorem pointerName_flatMap_nameChar (cs : List Char) :
    Reference.pointerName (cs.flatMap nameChar) = cs := by
  induction cs with
  | nil => rfl
  | cons c cs ih =>
    rw [List.flatMap_cons, nameChar]
    split
    · next htilde =>
      rw [htilde, List.cons_append, List.singleton_append, Reference.pointerName, ih]
    · next htilde =>
      split
      · next hslash =>
        rw [hslash, List.cons_append, List.singleton_append, Reference.pointerName, ih]
      · rw [List.singleton_append, Reference.pointerName, ih]
        · exact fun _ h => absurd h htilde
        · exact fun _ h => absurd h htilde
        · exact fun _ _ h => absurd h htilde

/-- Steps into the same value that have the same text are the same. -/
theorem eq_of_token_eq {s t : Step} {j x y : Json} (hs : j.step? s = some x)
    (ht : j.step? t = some y) (h : s.token = t.token) : s = t := by
  cases s with
  | item i =>
    obtain ⟨xs, rfl, -⟩ := Json.step?_item_eq_some_iff.1 hs
    cases t with
    | item k =>
      have hnumber := congrArg (Nat.ofDigitChars 10 · 0) h
      simpa [token, Nat.ofDigitChars_toDigits] using hnumber
    | member name => simp [Json.step?, Json.get?] at ht
  | member name =>
    obtain ⟨ms, rfl, -⟩ := Json.step?_member_eq_some_iff.1 hs
    cases t with
    | item k => simp [Json.step?] at ht
    | member other =>
      have hname := congrArg Reference.pointerName h
      simpa [token, pointerName_flatMap_nameChar, String.toList_inj] using hname

end Step

section Pointers
variable {p q : List Step} {j : Json}

def pointerTo (steps : List Step) : String := String.join (steps.map Step.text)

theorem toList_pointerTo (steps : List Step) :
    (pointerTo steps).toList = steps.flatMap fun s => '/' :: s.token := by
  rw [pointerTo, String.toList_join, List.flatMap_map]
  simp only [Step.toList_text]

theorem pointerTo_append (p q : List Step) : pointerTo (p ++ q) = pointerTo p ++ pointerTo q := by
  rw [← String.toList_inj, String.toList_append, toList_pointerTo, toList_pointerTo,
    toList_pointerTo, List.flatMap_append]

/-- Whether a pointer leads to a place or to a place below it, given the pointers of both. -/
def isWithin (outer inner : String) : Bool :=
  inner = outer || (outer ++ "/").toList.isPrefixOf inner.toList

def IsTail (cs : List Char) : Prop := ∀ c ∈ cs.head?, c = '/'

theorem isTail_pointerTo (steps : List Step) : IsTail (pointerTo steps).toList := by
  rw [toList_pointerTo]
  cases steps <;> simp [IsTail]

theorem IsTail.append {r s : List Char} (hr : IsTail r) (hs : IsTail s) : IsTail (r ++ s) := by
  cases r with
  | nil => exact hs
  | cons c r => simpa [IsTail] using hr

theorem isWithin_iff {outer inner : String} :
    isWithin outer inner = true ↔ ∃ rest, inner.toList = outer.toList ++ rest ∧ IsTail rest := by
  have hslash : (outer ++ "/").toList = outer.toList ++ ['/'] := String.toList_append
  rw [isWithin, Bool.or_eq_true, decide_eq_true_eq, List.isPrefixOf_iff_prefix, hslash]
  constructor
  · rintro (rfl | ⟨rest, h⟩)
    · exact ⟨[], by simp, by simp [IsTail]⟩
    · exact ⟨'/' :: rest, by simp [← h], by simp [IsTail]⟩
  · rintro ⟨rest, h, hrest⟩
    cases rest with
    | nil => exact .inl (String.toList_inj.1 (by simpa using h))
    | cons c rest =>
      obtain rfl : c = '/' := hrest c (by simp)
      exact .inr ⟨rest, by simp [h]⟩

/-- Texts without slashes are told apart from tails. -/
theorem append_tail_inj {a b r s : List Char} (ha : '/' ∉ a) (hb : '/' ∉ b) (hr : IsTail r)
    (hs : IsTail s) (h : a ++ r = b ++ s) : a = b ∧ r = s := by
  have hcut {u v : List Char} (hu : '/' ∉ u) (hv : IsTail v) :
      (u ++ v).takeWhile (· ≠ '/') = u := by
    have hstop : v.takeWhile (· ≠ '/') = [] := by
      cases v with
      | nil => rfl
      | cons c v =>
        obtain rfl : c = '/' := hv c (by simp)
        simp
    rw [List.takeWhile_append_of_pos, hstop, List.append_nil]
    intro c hc
    have hne : c ≠ '/' := by
      rintro rfl
      exact hu hc
    simpa using hne
  have hab : a = b := by rw [← hcut ha hr, h, hcut hb hs]
  subst hab
  exact ⟨rfl, List.append_cancel_left h⟩

/-- Within one value, a pointer leads into a place exactly if its steps do. -/
theorem isWithin_pointerTo_iff {x y : Json} (hp : j.at? p = some x) (hq : j.at? q = some y) :
    isWithin (pointerTo p) (pointerTo q) = true ↔ p <+: q := by
  rw [isWithin_iff]
  constructor
  · rintro ⟨rest, h, hrest⟩
    induction p generalizing j q with
    | nil => exact List.nil_prefix
    | cons s p ih =>
      cases q with
      | nil => simp [toList_pointerTo] at h
      | cons t q =>
        rw [Json.at?_cons] at hp hq
        obtain ⟨v, hv, hp⟩ := Option.bind_eq_some_iff.1 hp
        obtain ⟨w, hw, hq⟩ := Option.bind_eq_some_iff.1 hq
        have htext : t.token ++ (pointerTo q).toList =
            s.token ++ ((pointerTo p).toList ++ rest) := by
          simpa [toList_pointerTo] using h
        have htail : IsTail ((pointerTo p).toList ++ rest) := (isTail_pointerTo p).append hrest
        obtain ⟨htoken, hrests⟩ := append_tail_inj t.slash_not_mem_token s.slash_not_mem_token
          (isTail_pointerTo q) htail htext
        obtain rfl := Step.eq_of_token_eq hw hv htoken
        obtain rfl : w = v := Option.some.inj (hw.symm.trans hv)
        exact List.cons_prefix_cons.2 ⟨rfl, ih hp hq hrests⟩
  · rintro ⟨r, rfl⟩
    exact ⟨(pointerTo r).toList, by rw [pointerTo_append, String.toList_append], isTail_pointerTo r⟩

end Pointers
end AccessRules
