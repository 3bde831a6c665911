import AccessRules.Rules.Basic
import Mathlib.Data.List.Induction

/-! The closed form of merging. The statements of a node are built by one update after the other on
an ordered list, and each update concerns one method only. A run of updates therefore adds the
methods in the order of their first update, and the condition of a method is what its own updates
make of it, whatever stands between them. -/
namespace AccessRules

theorem nodup_eraseDups {α : Type} [DecidableEq α] : (xs : List α) → xs.eraseDups.Nodup
  | [] => by simp
  | x :: xs => by
    rw [List.eraseDups_cons, List.nodup_cons]
    have := List.length_filter_le (fun y => !y == x) xs
    exact ⟨by simp, nodup_eraseDups _⟩
termination_by xs => xs.length

theorem eraseDups_concat {α : Type} [DecidableEq α] (xs : List α) (x : α) :
    (xs ++ [x]).eraseDups = if x ∈ xs then xs.eraseDups else xs.eraseDups ++ [x] := by
  by_cases h : x ∈ xs <;> simp [List.eraseDups_append, List.removeAll, h, List.eraseDups_cons]

theorem eraseDups_append_of_subset {α : Type} [DecidableEq α] {xs ys : List α}
    (h : ∀ y ∈ ys, y ∈ xs) : (xs ++ ys).eraseDups = xs.eraseDups := by
  have hrest : ys.removeAll xs = [] := by
    rw [List.removeAll, List.filter_eq_nil_iff]
    intro y hy
    simp [h y hy]
  rw [List.eraseDups_append, hrest, List.eraseDups_nil, List.append_nil]

namespace Statement

/-- One change to a list of statements: the condition of a method as a function of the one it had,
if it had any. -/
structure Update where
  method : Method
  next : Option String → String

def Update.apply (done : List Statement) (u : Update) : List Statement :=
  upsert u.method (u.next none) (fun c => u.next (some c)) done

def condition? (done : List Statement) (m : Method) : Option String :=
  (done.find? fun s => s.method = m).map condition

@[simp] theorem condition?_nil (m : Method) : condition? [] m = none := rfl

theorem condition?_cons (s : Statement) (rest : List Statement) (m : Method) :
    condition? (s :: rest) m = if s.method = m then some s.condition else condition? rest m := by
  by_cases h : s.method = m <;> simp [condition?, h]

/-- An update changes the condition of its own method and no other. -/
theorem condition?_apply (done : List Statement) (u : Update) (m : Method) :
    condition? (u.apply done) m =
      if u.method = m then some (u.next (condition? done m)) else condition? done m := by
  unfold Update.apply
  induction done with
  | nil => simp [upsert, condition?_cons]
  | cons s rest ih =>
    by_cases hs : s.method = u.method
    · by_cases hm : u.method = m <;> simp [upsert, condition?_cons, hs, hm]
    · simp only [upsert, hs, if_false, condition?_cons, ih]
      by_cases hm : u.method = m
      · have hsm : s.method ≠ m := fun h => hs (h.trans hm.symm)
        simp [hm, hsm]
      · simp [hm]

theorem map_method_apply (done : List Statement) (u : Update) :
    (u.apply done).map method =
      if u.method ∈ done.map method then done.map method else done.map method ++ [u.method] :=
  map_method_upsert _ _ _ _

/-- A run of updates lists the methods by their first updates. -/
theorem map_method_run (us : List Update) :
    (us.foldl Update.apply []).map method = (us.map Update.method).eraseDups := by
  induction us using List.reverseRecOn with
  | nil => rfl
  | append_singleton us u ih =>
    rw [List.foldl_append, List.foldl_cons, List.foldl_nil, map_method_apply, ih, List.map_append,
      List.map_singleton, eraseDups_concat]
    simp only [List.mem_eraseDups]

/-- The updates of one method, applied to its condition alone. -/
def revise (m : Method) (us : List Update) : Option String :=
  (us.filter fun u => u.method = m).foldl (fun c? u => some (u.next c?)) none

/-- A run of updates gives each method what its own updates make of it. -/
theorem condition?_run (us : List Update) (m : Method) :
    condition? (us.foldl Update.apply []) m = revise m us := by
  induction us using List.reverseRecOn with
  | nil => rfl
  | append_singleton us u ih =>
    rw [List.foldl_append, List.foldl_cons, List.foldl_nil, condition?_apply, ih]
    by_cases h : u.method = m <;> simp [revise, List.filter_append, h]

/-- A list with one statement for each method is known by its methods and their conditions. -/
theorem eq_map_of_nodup {done : List Statement} (h : (done.map method).Nodup) :
    done = (done.map method).map fun m => ⟨m, (condition? done m).getD ""⟩ := by
  induction done with
  | nil => rfl
  | cons s rest ih =>
    rw [List.map_cons, List.nodup_cons] at h
    have hrest : (rest.map method).map (fun m => (⟨m, (condition? (s :: rest) m).getD ""⟩ :
        Statement)) = (rest.map method).map fun m => ⟨m, (condition? rest m).getD ""⟩ := by
      apply List.map_congr_left
      intro m hm
      have hne : s.method ≠ m := fun e => h.1 (e ▸ hm)
      rw [condition?_cons, if_neg hne]
    rw [List.map_cons, List.map_cons, hrest, ← ih h.2]
    simp [condition?_cons]

theorem run_eq_map (us : List Update) :
    us.foldl Update.apply [] =
      (us.map Update.method).eraseDups.map fun m => ⟨m, (revise m us).getD ""⟩ := by
  have h : ((us.foldl Update.apply []).map method).Nodup := by
    rw [map_method_run]
    exact nodup_eraseDups _
  have heq := eq_map_of_nodup h
  simpa only [map_method_run, condition?_run] using heq

/-- Texts that all have to hold, as one condition. -/
def conjunction (texts : List String) : String := " && ".intercalate texts

@[simp] theorem conjunction_nil : conjunction [] = "" := rfl
@[simp] theorem conjunction_singleton (text : String) : conjunction [text] = text := by
  simp [conjunction]

theorem conjunction_append {xs ys : List String} (hx : xs ≠ []) (hy : ys ≠ []) :
    conjunction (xs ++ ys) = conjoin (conjunction xs) (conjunction ys) :=
  String.intercalate_append_of_ne_nil hx hy

theorem conjunction_cons_cons (x y : String) (ys : List String) :
    conjunction (x :: y :: ys) = conjoin x (conjunction (y :: ys)) :=
  String.intercalate_cons_cons

theorem conjunction_conjoin_cons (x y : String) (ys : List String) :
    conjunction (conjoin x y :: ys) = conjunction (x :: y :: ys) := by
  cases ys with
  | nil => simp [conjunction_cons_cons]
  | cons z zs => simp [conjunction_cons_cons, conjoin, String.append_assoc]

theorem conjunction_map_conjunction (lists : List (List String)) :
    conjunction ((lists.filter fun xs => !xs.isEmpty).map conjunction) =
      conjunction lists.flatten := by
  induction lists with
  | nil => rfl
  | cons xs lists ih =>
    by_cases hx : xs = []
    · simpa [hx] using ih
    · rw [List.filter_cons_of_pos (by simpa using hx), List.map_cons, List.flatten_cons]
      by_cases hrest : lists.flatten = []
      · have hnone : (lists.filter fun xs => !xs.isEmpty) = [] := by
          simpa [List.filter_eq_nil_iff] using hrest
        rw [hnone, hrest, List.map_nil, conjunction_singleton, List.append_nil]
      · have hsome : (lists.filter fun xs => !xs.isEmpty).map conjunction ≠ [] := by
          simpa [List.filter_eq_nil_iff] using hrest
        rw [conjunction_append hx hrest, ← ih, ← conjunction_singleton (conjunction xs),
          ← conjunction_append (by simp) hsome]
        simp

theorem conjoin_ne_empty (a b : String) : conjoin a b ≠ "" := by
  simp [conjoin, String.append_eq_empty_iff]

/-- A conjunction is no condition only if it has no parts, or a single one that is no condition. -/
theorem conjunction_eq_empty_iff {texts : List String} :
    conjunction texts = "" ↔ texts = [] ∨ texts = [""] := by
  match texts with
  | [] => simp
  | [x] => simp
  | x :: y :: ys => simp [conjunction_cons_cons, conjoin_ne_empty]

namespace Update

def grant (m : Method) (conditions : List String) : Update where
  method := m
  next
    | none => conjunction conditions
    | some c =>
      if conditions.isEmpty || c.isEmpty then c else conjoin c (conjunction conditions)

def check (m : Method) (text : String) : Update where
  method := m
  next
    | none => text
    | some c => if c.isEmpty then text else conjoin c text

theorem grant_method (m : Method) (cs : List String) : (grant m cs).method = m := rfl
theorem check_method (m : Method) (text : String) : (check m text).method = m := rfl

end Update

theorem addGrant_eq_foldl (done : List Statement) (g : Grant) :
    addGrant done g = (g.methods.map fun m => .grant m g.conditions).foldl Update.apply done := by
  rw [List.foldl_map]
  rfl

def typeUpdates (r : FieldRule) : List Update :=
  if r.isTyped then [.check .create r.createCheck, .check .update r.updateCheck] else []

theorem addTypeChecks_eq_foldl (done : List Statement) (r : FieldRule) :
    addTypeChecks done r = (typeUpdates r).foldl Update.apply done := by
  by_cases h : r.isTyped <;> simp only [addTypeChecks, typeUpdates, h] <;> rfl

/-- Grants on top of a condition append to it, and leave no condition as it is. -/
theorem foldl_grant (m : Method) (c : String) (lists : List (List String)) :
    (lists.map (Update.grant m)).foldl (fun c? u => some (u.next c?)) (some c) =
      some (if c = "" then "" else
        conjunction (c :: (lists.filter fun cs => !cs.isEmpty).map conjunction)) := by
  induction lists generalizing c with
  | nil => by_cases h : c = "" <;> simp [h]
  | cons cs lists ih =>
    rw [List.map_cons, List.foldl_cons, ih]
    by_cases hc : c = ""
    · simp [Update.grant, hc]
    · by_cases hcs : cs = []
      · simp [Update.grant, hc, hcs]
      · simp [Update.grant, hc, hcs, conjoin_ne_empty, conjunction_conjoin_cons]

theorem foldl_check_some (m : Method) {c : String} (hc : c ≠ "") (checks : List String) :
    (checks.map (Update.check m)).foldl (fun c? u => some (u.next c?)) (some c) =
      some (conjunction (c :: checks)) := by
  induction checks generalizing c with
  | nil => simp
  | cons text checks ih =>
    rw [← conjunction_conjoin_cons, ← ih (conjoin_ne_empty c text)]
    simp [Update.check, hc]

theorem foldl_check (m : Method) (c? : Option String) {checks : List String} (hne : checks ≠ [])
    (h : ∀ text ∈ checks, text ≠ "") :
    (checks.map (Update.check m)).foldl (fun c? u => some (u.next c?)) c? =
      some (conjunction ((c?.toList.filter fun c => c ≠ "") ++ checks)) := by
  obtain ⟨text, checks, rfl⟩ := List.exists_cons_of_ne_nil hne
  have htext : text ≠ "" := h text (by simp)
  have hfresh := foldl_check_some m htext checks
  rcases c? with _ | c
  · exact hfresh
  · by_cases hc : c = ""
    · subst hc
      exact hfresh
    · simpa [hc] using foldl_check_some m hc (text :: checks)

end Statement

namespace FieldRule

theorem isOfType_ne_empty (r : FieldRule) (defaulted : Bool) (t : ValueType) :
    r.isOfType defaulted t ≠ "" := by
  simp [isOfType, String.append_eq_empty_iff]

theorem typeCheck_ne_empty {r : FieldRule} (h : r.isTyped = true) (defaulted : Bool) :
    r.typeCheck defaulted ≠ "" := by
  unfold isTyped at h
  unfold typeCheck
  match hr : r.types with
  | [] => simp [hr] at h
  | [t] => simp [isOfType_ne_empty]
  | t :: u :: ts => simp [String.append_eq_empty_iff]

end FieldRule

theorem presenceCheck_ne_empty (fields : List String) (exclusive : Bool) :
    presenceCheck fields exclusive ≠ "" := by
  intro h
  unfold presenceCheck at h
  exact absurd (String.append_eq_empty_iff.1 h).2 (by decide)

namespace GrantNode
open Statement

def checkedMethods (n : GrantNode) : List Method :=
  if n.fieldRules = [] then []
  else if n.fieldRules.any FieldRule.isTyped then [.create, .update] else [.create]

/-- The methods of the statements of a node: those granted, then those checked, each once. -/
def methodOrder (n : GrantNode) : List Method :=
  (n.grants.flatMap Grant.methods ++ n.checkedMethods).eraseDups

/-- The condition lists of the grants of a method, one for each time that it is granted. -/
def occurrences (n : GrantNode) (m : Method) : List (List String) :=
  n.grants.flatMap fun g => List.replicate (g.methods.count m) g.conditions

/-- What the grants alone demand of a method. A first grant without a condition settles it. -/
def grantedCondition (n : GrantNode) (m : Method) : String :=
  match n.occurrences m with
  | [] => ""
  | first :: rest =>
    if conjunction first = "" then ""
    else conjunction (((first :: rest).filter fun cs => !cs.isEmpty).map conjunction)

/-- The type checks of a method: `create` reads the optional fields by their placeholders, and
`update` reads all fields so. -/
def typeChecks (rules : List FieldRule) : Method → List String
  | .create => (rules.filter FieldRule.isTyped).map fun r => r.typeCheck !r.required
  | .update => (rules.filter FieldRule.isTyped).map fun r => r.typeCheck true
  | _ => []

def fieldChecks (n : GrantNode) (m : Method) : List String :=
  typeChecks n.fieldRules m ++
    if m = .create ∧ n.fieldRules ≠ [] then
      [presenceCheck (requiredFields n.fieldRules) n.exclusive]
    else []

def conditionOf (n : GrantNode) (m : Method) : String :=
  conjunction (([n.grantedCondition m].filter fun c => c ≠ "") ++ n.fieldChecks m)

def grantUpdates (n : GrantNode) : List Update :=
  n.grants.flatMap fun g => g.methods.map fun m => .grant m g.conditions

def checkUpdates (n : GrantNode) : List Update :=
  if n.fieldRules = [] then []
  else n.fieldRules.flatMap typeUpdates ++
    [.check .create (presenceCheck (requiredFields n.fieldRules) n.exclusive)]

theorem statements_eq_run (n : GrantNode) :
    n.statements = (n.grantUpdates ++ n.checkUpdates).foldl Update.apply [] := by
  have hg : n.grants.foldl addGrant [] = n.grantUpdates.foldl Update.apply [] := by
    rw [grantUpdates, List.foldl_flatMap]
    congr 1
    funext done g
    exact addGrant_eq_foldl done g
  have hc (done : List Statement) : n.fieldRules.foldl addTypeChecks done =
      (n.fieldRules.flatMap typeUpdates).foldl Update.apply done := by
    rw [List.foldl_flatMap]
    congr 1
    funext done r
    exact addTypeChecks_eq_foldl done r
  rw [List.foldl_append, ← hg]
  by_cases h : n.fieldRules = []
  · simp [statements, checkUpdates, h]
  · simp only [statements, checkUpdates, h, List.isEmpty_iff, if_false, hc, List.foldl_append]
    rfl

theorem filter_grantUpdates (n : GrantNode) (m : Method) :
    (n.grantUpdates.filter fun u => u.method = m) = (n.occurrences m).map (Update.grant m) := by
  rw [grantUpdates, occurrences, List.filter_flatMap, List.map_flatMap]
  congr 1
  funext g
  rw [List.filter_map, List.map_replicate]
  have h : ((fun u : Update => decide (u.method = m)) ∘ fun k => Update.grant k g.conditions) =
      fun k => k == m := by
    funext k
    exact (beq_eq_decide k m).symm
  rw [h, List.filter_beq, List.map_replicate]

theorem filter_typeUpdates (rules : List FieldRule) (m : Method) :
    ((rules.flatMap typeUpdates).filter fun u => u.method = m) =
      (typeChecks rules m).map (Update.check m) := by
  induction rules with
  | nil => cases m <;> rfl
  | cons r rules ih =>
    rw [List.flatMap_cons, List.filter_append, ih]
    by_cases h : r.isTyped
    · cases m <;> simp [typeUpdates, typeChecks, h, FieldRule.createCheck, FieldRule.updateCheck,
        Update.check_method]
    · cases m <;> simp [typeUpdates, typeChecks, h]

theorem filter_checkUpdates (n : GrantNode) (m : Method) :
    (n.checkUpdates.filter fun u => u.method = m) = (n.fieldChecks m).map (Update.check m) := by
  by_cases h : n.fieldRules = []
  · cases m <;> simp [checkUpdates, fieldChecks, typeChecks, h]
  · simp only [checkUpdates, h, if_false, List.filter_append, filter_typeUpdates, fieldChecks]
    by_cases hm : m = .create
    · simp [hm, h, Update.check_method]
    · simp [hm, Ne.symm hm, Update.check_method]

theorem ne_empty_of_mem_typeChecks {rules : List FieldRule} {m : Method} {text : String}
    (h : text ∈ typeChecks rules m) : text ≠ "" := by
  have hmap (defaulted : FieldRule → Bool) (ht : text ∈
      (rules.filter FieldRule.isTyped).map fun r => r.typeCheck (defaulted r)) : text ≠ "" := by
    obtain ⟨r, hr, rfl⟩ := List.mem_map.1 ht
    exact FieldRule.typeCheck_ne_empty (List.mem_filter.1 hr).2 _
  cases m with
  | create => exact hmap (fun r => !r.required) h
  | update => exact hmap (fun _ => true) h
  | _ => simp [typeChecks] at h

theorem ne_empty_of_mem_fieldChecks {n : GrantNode} {m : Method} {text : String}
    (h : text ∈ n.fieldChecks m) : text ≠ "" := by
  rcases List.mem_append.1 h with h | h
  · exact ne_empty_of_mem_typeChecks h
  · split at h
    · rw [List.mem_singleton.1 h]
      exact presenceCheck_ne_empty _ _
    · simp at h

theorem foldl_grantUpdates (n : GrantNode) (m : Method) :
    ((n.occurrences m).map (Update.grant m)).foldl (fun c? u => some (u.next c?)) none =
      if n.occurrences m = [] then none else some (n.grantedCondition m) := by
  unfold grantedCondition
  cases n.occurrences m with
  | nil => rfl
  | cons first rest =>
    rw [List.map_cons, List.foldl_cons]
    refine (foldl_grant m (conjunction first) rest).trans ?_
    have hfirst : conjunction first ≠ "" → first ≠ [] := by
      rintro h rfl
      exact h rfl
    by_cases h : conjunction first = "" <;> simp [h, hfirst]

theorem revise_eq_conditionOf (n : GrantNode) (m : Method) :
    (revise m (n.grantUpdates ++ n.checkUpdates)).getD "" = n.conditionOf m := by
  rw [revise, List.filter_append, List.foldl_append, filter_grantUpdates, filter_checkUpdates,
    foldl_grantUpdates, conditionOf]
  have hnone : n.occurrences m = [] → n.grantedCondition m = "" := by
    intro h
    simp [grantedCondition, h]
  by_cases hc : n.fieldChecks m = []
  · by_cases ho : n.occurrences m = []
    · simp [hc, ho, hnone]
    · by_cases hg : n.grantedCondition m = "" <;> simp [hc, ho, hg]
  · rw [foldl_check m _ hc fun _ => ne_empty_of_mem_fieldChecks]
    by_cases ho : n.occurrences m = []
    · simp [ho, hnone]
    · by_cases hg : n.grantedCondition m = "" <;> simp [ho, hg]

theorem mem_methods_typeUpdates {rules : List FieldRule} {m : Method}
    (h : m ∈ (rules.flatMap typeUpdates).map Update.method) : m = .create ∨ m = .update := by
  obtain ⟨u, hu, rfl⟩ := List.mem_map.1 h
  obtain ⟨r, -, hr⟩ := List.mem_flatMap.1 hu
  unfold typeUpdates at hr
  split at hr
  · simp only [List.mem_cons, List.not_mem_nil, or_false] at hr
    rcases hr with rfl | rfl <;> simp [Update.check_method]
  · simp at hr

theorem methods_typeUpdates {rules : List FieldRule} (h : rules.any FieldRule.isTyped = true) :
    ∃ rest, (rules.flatMap typeUpdates).map Update.method = .create :: .update :: rest := by
  induction rules with
  | nil => simp at h
  | cons r rules ih =>
    by_cases hr : r.isTyped
    · exact ⟨_, by simp [typeUpdates, hr, Update.check_method]; rfl⟩
    · obtain ⟨rest, hrest⟩ := ih (by simpa [hr] using h)
      exact ⟨rest, by simpa [typeUpdates, hr] using hrest⟩

theorem flatMap_typeUpdates_eq_nil {rules : List FieldRule}
    (h : rules.any FieldRule.isTyped = false) : rules.flatMap typeUpdates = [] := by
  rw [List.flatMap_eq_nil_iff]
  intro r hr
  simp [typeUpdates, List.any_eq_false.1 h r hr]

theorem eraseDups_append_checked (n : GrantNode) (ms : List Method) :
    (ms ++ n.checkUpdates.map Update.method).eraseDups = (ms ++ n.checkedMethods).eraseDups := by
  by_cases hn : n.fieldRules = []
  · simp [checkUpdates, checkedMethods, hn]
  · cases ht : n.fieldRules.any FieldRule.isTyped with
    | false =>
      simp [checkUpdates, checkedMethods, hn, ht, flatMap_typeUpdates_eq_nil ht,
        Update.check_method]
    | true =>
      obtain ⟨rest, hrest⟩ := methods_typeUpdates ht
      have hmem : ∀ m ∈ rest ++ [.create], m ∈ ms ++ [.create, .update] := by
        intro m hm
        have hor : m = .create ∨ m = .update := by
          rcases List.mem_append.1 hm with hm | hm
          · exact @mem_methods_typeUpdates n.fieldRules m (by simp [hrest, hm])
          · exact .inl (List.mem_singleton.1 hm)
        rcases hor with rfl | rfl <;> simp
      have heq : n.checkUpdates.map Update.method = [.create, .update] ++ (rest ++ [.create]) := by
        simp only [checkUpdates, hn, if_false, List.map_append, hrest]
        rfl
      rw [heq, ← List.append_assoc, eraseDups_append_of_subset hmem]
      simp [checkedMethods, hn, ht]

theorem map_method_updates (n : GrantNode) :
    ((n.grantUpdates ++ n.checkUpdates).map Update.method).eraseDups = n.methodOrder := by
  have hg : n.grantUpdates.map Update.method = n.grants.flatMap Grant.methods := by
    rw [grantUpdates, List.map_flatMap]
    congr 1
    funext g
    simp [Function.comp_def, Update.grant_method]
  rw [List.map_append, eraseDups_append_checked, hg, methodOrder]

/-- The statements of a node in closed form. -/
theorem statements_eq_map (n : GrantNode) :
    n.statements = n.methodOrder.map fun m => ⟨m, n.conditionOf m⟩ := by
  rw [statements_eq_run, run_eq_map, map_method_updates]
  apply List.map_congr_left
  intro m _
  rw [revise_eq_conditionOf]

/-- Merging emits one statement for each method of the node in the order of first mention, under
the conditions of its grants and then the checks of the field rules. -/
theorem mergeTree_closed_form (n : GrantNode) (ts : List (Tree GrantNode)) :
    n.methodOrder.Nodup ∧
      mergeTree (.node n ts) = .node
        { segment := n.segment
          statements := n.methodOrder.map fun m =>
            if n.conditionOf m = "" then "allow " ++ m.token ++ ";"
            else "allow " ++ m.token ++ ": if " ++ n.conditionOf m ++ ";" }
        (ts.map mergeTree) := by
  refine ⟨nodup_eraseDups _, ?_⟩
  unfold mergeTree
  rw [Tree.map_node, merge, statements_eq_map, List.map_map]
  simp [Function.comp_def, Statement.text]

end GrantNode
end AccessRules
