import AccessRules.Format
import AccessRules.Proofs.Places

/-! Documents that are read from texts have distinct names. An object is put together member by
member in the order of the names, and the last member of a name takes the place of those before it,
so that no text, in either format, gives an object that has a name twice. -/
namespace AccessRules

namespace Text.Reader
variable {α β : Type} {P : α → Prop} {Q : β → Prop} {r : Reader α}

/-- All values that the reader yields have a property. -/
def Yields (P : α → Prop) (r : Reader α) : Prop := ∀ cs a rest, r cs = some (a, rest) → P a

theorem yields_true (r : Reader α) : Yields (fun _ => True) r := fun _ _ _ _ => trivial

theorem yields_pure {a : α} (h : P a) : Yields P (pure a : Reader α) := by
  intro cs b rest hb
  obtain ⟨rfl, rfl⟩ := Prod.mk.inj (Option.some.inj hb)
  exact h

theorem yields_failure : Yields P (failure : Reader α) := by
  intro cs a rest ha
  cases ha

theorem Yields.bind {f : α → Reader β} (hr : Yields P r) (hf : ∀ a, P a → Yields Q (f a)) :
    Yields Q (r >>= f) := by
  intro cs b rest hb
  obtain ⟨⟨a, after⟩, ha, hb⟩ := Option.bind_eq_some_iff.1 hb
  exact hf a (hr cs a after ha) after b rest hb

theorem yields_bind {f : α → Reader β} (hf : ∀ a, Yields Q (f a)) : Yields Q (r >>= f) :=
  (yields_true r).bind fun a _ => hf a

theorem Yields.map {f : α → β} (hr : Yields P r) (hf : ∀ a, P a → Q (f a)) : Yields Q (f <$> r) :=
  hr.bind fun a ha => yields_pure (hf a ha)

theorem Yields.orElse {s : Reader α} (hr : Yields P r) (hs : Yields P s) : Yields P (r <|> s) := by
  intro cs a rest ha
  have hchoice : (r <|> s) cs = (r cs).or (s cs) := by
    have hcases : (r <|> s) cs = (r cs <|> s cs) := rfl
    rw [hcases, Option.orElse_eq_orElse, Option.orElse_eq_or]
  rcases Option.or_eq_some_iff.1 (hchoice.symm.trans ha) with ha | ⟨-, ha⟩
  · exact hr cs a rest ha
  · exact hs cs a rest ha

theorem Yields.optional (hr : Yields P r) : Yields (fun a? => ∀ a ∈ a?, P a) (optional r) :=
  (hr.map fun a ha => by simpa using ha).orElse (yields_pure (by simp))

theorem Yields.upTo (hr : Yields P r) (n : Nat) : Yields (fun as => ∀ a ∈ as, P a) (upTo r n) := by
  induction n with
  | zero => exact yields_pure (by simp)
  | succ n ih =>
    refine hr.optional.bind fun a? ha? => ?_
    cases a? with
    | none => exact yields_pure (by simp)
    | some a =>
      refine ih.bind fun as has => yields_pure ?_
      exact List.forall_mem_cons.2 ⟨ha? a rfl, has⟩

theorem Yields.many (hr : Yields P r) : Yields (fun as => ∀ a ∈ as, P a) (many r) :=
  fun cs => hr.upTo cs.length cs

theorem Yields.separated (hr : Yields P r) (separator : Reader Unit) :
    Yields (fun as => ∀ a ∈ as, P a) (separated r separator) := by
  have hmany : Yields (fun as => ∀ a ∈ as, P a) (Reader.many (do separator; r)) :=
    Yields.many (yields_bind fun _ => hr)
  exact hr.bind fun a ha => hmany.bind fun as has => yields_pure (List.forall_mem_cons.2 ⟨ha, has⟩)

theorem Yields.run? {cs : List Char} {a : α} (hr : Yields P r) (h : r.run? cs = some a) : P a := by
  unfold Reader.run? at h
  split at h
  · next b hb =>
    obtain rfl := Option.some.inj h
    exact hr cs _ [] hb
  · cases h

end Text.Reader
open Text Text.Reader

namespace Json

/-- The reader yields values with distinct names only. -/
def YieldsDistinct (r : Reader Json) : Prop := Yields (fun j => j.hasDistinctNames = true) r

section Members
variable {name : String} {ms : List (String × Json)}

def InOrder (ms : List (String × Json)) : Prop := (ms.map Prod.fst).Pairwise (· < ·)

theorem mem_insert {value : Json} {m : String × Json} (h : m ∈ insert name value ms) :
    m = (name, value) ∨ m ∈ ms := by
  induction ms with
  | nil => simpa [insert] using h
  | cons k ms ih =>
    obtain ⟨other, old⟩ := k
    unfold insert at h
    split at h
    · simpa using h
    · split at h
      · exact (List.mem_cons.1 h).imp_right (List.mem_cons_of_mem _)
      · rcases List.mem_cons.1 h with rfl | h
        · simp
        · exact (ih h).imp_right (List.mem_cons_of_mem _)

theorem inOrder_insert {value : Json} (h : InOrder ms) : InOrder (insert name value ms) := by
  induction ms with
  | nil => simp [InOrder, insert]
  | cons m ms ih =>
    obtain ⟨first, old⟩ := m
    simp only [InOrder, List.map_cons, List.pairwise_cons] at h
    unfold insert
    split
    · next hlt =>
      simp only [InOrder, List.map_cons, List.pairwise_cons, List.forall_mem_cons]
      exact ⟨⟨hlt, fun other ho => String.lt_trans hlt (h.1 other ho)⟩, h⟩
    · next hlt =>
      split
      · next hname =>
        subst hname
        simpa only [InOrder, List.map_cons, List.pairwise_cons] using h
      · next hne =>
        have hfirst : first < name :=
          Std.lt_of_le_of_ne (String.not_lt.1 hlt) (Ne.symm hne)
        simp only [InOrder, List.map_cons, List.pairwise_cons]
        refine ⟨fun other ho => ?_, ih h.2⟩
        obtain ⟨m, hm, rfl⟩ := List.mem_map.1 ho
        rcases mem_insert hm with rfl | hm
        · exact hfirst
        · exact h.1 m.1 (List.mem_map_of_mem hm)

theorem hasDistinctNames_ofMembers (h : ∀ m ∈ ms, m.2.hasDistinctNames = true) :
    (ofMembers ms).hasDistinctNames = true := by
  -- The members that are put in so far are in order, and their values are as they should be.
  have hfold (done : List (String × Json)) (hdone : InOrder done)
      (hvalues : ∀ m ∈ done, m.2.hasDistinctNames = true) :
      InOrder (ms.foldl (fun done m => insert m.1 m.2 done) done) ∧
        ∀ m ∈ ms.foldl (fun done m => insert m.1 m.2 done) done,
          m.2.hasDistinctNames = true := by
    induction ms generalizing done with
    | nil => exact ⟨hdone, hvalues⟩
    | cons m ms ih =>
      refine ih (fun k hk => h k (by simp [hk])) _ (inOrder_insert hdone) fun k hk => ?_
      rcases mem_insert hk with rfl | hk
      · exact h m (by simp)
      · exact hvalues k hk
  obtain ⟨horder, hvalues⟩ := hfold [] (by simp [InOrder]) (by simp)
  exact hasDistinctNames_object_iff.2 ⟨horder.imp fun hlt heq => by simp [heq] at hlt, hvalues⟩

end Members

theorem yields_scalar : YieldsDistinct scalar := by
  refine yields_bind fun c => ?_
  split
  · exact yields_bind fun _ => yields_pure rfl
  · exact yields_bind fun _ => yields_pure rfl
  · exact yields_bind fun _ => yields_pure rfl
  · exact (yields_true stringText).map fun _ _ => rfl
  · exact (yields_true numberValue).map fun _ _ => rfl

theorem yields_bracketed {α : Type} {P : α → Prop} {item : Reader α} (h : Yields P item)
    (opening closing : Char) :
    Yields (fun items => ∀ a ∈ items, P a) (bracketed opening closing item) := by
  refine yields_bind fun _ => yields_bind fun c => ?_
  split
  · split
    · exact yields_bind fun _ => yields_pure (by simp)
    · exact (h.separated _).bind fun items hitems => yields_bind fun _ => yields_pure hitems
  · exact yields_failure

theorem yields_value (depth : Nat) : YieldsDistinct (value depth) := by
  induction depth with
  | zero => exact yields_scalar
  | succ depth ih =>
    refine yields_bind fun c => ?_
    split
    · refine (yields_bracketed ?_ _ _).map fun items hitems => hasDistinctNames_array_iff.2 hitems
      exact ih.bind fun item hitem => yields_bind fun _ => yields_pure hitem
    · refine (yields_bracketed (P := fun m => m.2.hasDistinctNames = true) ?_ _ _).map
        fun members hmembers => hasDistinctNames_ofMembers hmembers
      refine yields_bind fun name => yields_bind fun _ => yields_bind fun _ => ?_
      exact ih.bind fun item hitem => yields_bind fun _ => yields_pure hitem
    · exact yields_scalar

theorem hasDistinctNames_of_ofText? {text : String} {j : Json} (h : ofText? text = some j) :
    j.hasDistinctNames = true := by
  have hdocument : YieldsDistinct (do space; let v ← value depthLimit; space; return v) :=
    yields_bind fun _ => (yields_value depthLimit).bind fun j hj =>
      yields_bind fun _ => yields_pure hj
  exact hdocument.run? h

end Json

namespace Toml
open Json

/-- The finished values in an item have distinct names. -/
inductive Item.Sound : Item → Prop
  | value {j : Json} (h : j.hasDistinctNames = true) : Sound (.value j)
  | table {origin : Origin} {entries : Entries} (h : ∀ e ∈ entries, Sound e.2) :
      Sound (.table origin entries)
  | tables {finished : List Entries} {last : Entries}
      (hfinished : ∀ entries ∈ finished, ∀ e ∈ entries, Sound e.2)
      (hlast : ∀ e ∈ last, Sound e.2) : Sound (.tables finished last)

namespace Entries

def Sound (entries : Entries) : Prop := ∀ e ∈ entries, e.2.Sound

theorem members_eq_map (entries : Entries) :
    members entries = entries.map fun e => (e.1, e.2.toJson) := by
  induction entries with
  | nil => rfl
  | cons e entries ih => rw [members, ih, List.map_cons]

theorem allToJson_eq_map (tables : List Entries) : allToJson tables = tables.map toJson := by
  induction tables with
  | nil => rfl
  | cons entries tables ih => rw [allToJson, ih, List.map_cons, toJson]

end Entries

theorem Entries.hasDistinctNames_of_forall {entries : Entries}
    (h : ∀ e ∈ entries, e.2.toJson.hasDistinctNames = true) :
    entries.toJson.hasDistinctNames = true := by
  apply hasDistinctNames_ofMembers
  rw [Entries.members_eq_map]
  intro m hm
  obtain ⟨e, he, rfl⟩ := List.mem_map.1 hm
  exact h e he

theorem Item.hasDistinctNames_toJson {item : Item} (h : item.Sound) :
    item.toJson.hasDistinctNames = true := by
  induction h with
  | value h => exact h
  | table h ih => exact Entries.hasDistinctNames_of_forall ih
  | tables hfinished hlast ihFinished ihLast =>
    rw [Item.toJson, hasDistinctNames_array_iff, Entries.allToJson_eq_map]
    intro j hj
    rcases List.mem_append.1 hj with hj | hj
    · obtain ⟨entries, hentries, rfl⟩ := List.mem_map.1 hj
      exact Entries.hasDistinctNames_of_forall (ihFinished entries hentries)
    · obtain rfl := List.mem_singleton.1 hj
      exact Entries.hasDistinctNames_of_forall ihLast

namespace Entries

theorem hasDistinctNames_toJson {entries : Entries} (h : entries.Sound) :
    entries.toJson.hasDistinctNames = true :=
  hasDistinctNames_of_forall fun e he => Item.hasDistinctNames_toJson (h e he)

variable {key : String} {item : Item} {entries : Entries}

theorem Sound.lookup (h : entries.Sound) (hitem : entries.lookup key = some item) : item.Sound := by
  obtain ⟨before, behind, rfl, -⟩ := List.lookup_eq_some_iff.1 hitem
  exact h (key, item) (by simp)

theorem Sound.set (h : entries.Sound) (hitem : item.Sound) : (entries.set key item).Sound := by
  induction entries with
  | nil => simpa [Entries.set, Sound] using hitem
  | cons e entries ih =>
    obtain ⟨he, hentries⟩ := List.forall_mem_cons.1 h
    unfold Entries.set
    split
    · exact List.forall_mem_cons.2 ⟨hitem, hentries⟩
    · exact List.forall_mem_cons.2 ⟨he, ih hentries⟩

/-- A change of one table keeps all entries sound if it keeps that table sound. -/
theorem Sound.update {dotted : Bool} {change : Origin → Entries → Option Entries}
    (hchange : ∀ origin es es', es.Sound → change origin es = some es' → es'.Sound)
    {path : List String} {origin : Origin} {entries' : Entries} (h : entries.Sound)
    (hupdate : Entries.update dotted change path origin entries = some entries') :
    entries'.Sound := by
  induction path generalizing origin entries entries' with
  | nil => exact hchange origin entries entries' h hupdate
  | cons key path ih =>
    unfold Entries.update at hupdate
    split at hupdate
    · obtain ⟨inner, hinner, hset⟩ := Option.bind_eq_some_iff.1 hupdate
      obtain rfl := Option.some.inj hset
      exact h.set (.table (ih (by simp [Sound]) hinner))
    · next inner hlookup =>
      split at hupdate
      · cases hupdate
      · obtain ⟨inner', hinner, hset⟩ := Option.bind_eq_some_iff.1 hupdate
        obtain rfl := Option.some.inj hset
        cases h.lookup hlookup with
        | table hsound => exact h.set (.table (ih hsound hinner))
    · next finished last hlookup =>
      obtain ⟨inner, hinner, hset⟩ := Option.bind_eq_some_iff.1 hupdate
      obtain rfl := Option.some.inj hset
      cases h.lookup hlookup with
      | tables hfinished hlast => exact h.set (.tables hfinished (ih hlast hinner))
    · cases hupdate

theorem Sound.assign {path : List String} {j : Json} {origin : Origin} {entries' : Entries}
    (h : entries.Sound) (hj : j.hasDistinctNames = true)
    (hassign : Entries.assign path key j origin entries = some entries') : entries'.Sound := by
  refine h.update (fun _ es es' hes hchange => ?_) hassign
  split at hchange
  · cases hchange
  · obtain rfl := Option.some.inj hchange
    intro e he
    rcases List.mem_append.1 he with he | he
    · exact hes e he
    · obtain rfl := List.mem_singleton.1 he
      exact .value hj

theorem Sound.openTable {path : List String} {root : Entries} (h : entries.Sound)
    (hopen : Entries.openTable path key entries = some root) : root.Sound := by
  refine h.update (fun _ es es' hes hchange => ?_) hopen
  split at hchange
  · obtain rfl := Option.some.inj hchange
    exact hes.set (.table (by simp))
  · next inner hlookup =>
    obtain rfl := Option.some.inj hchange
    cases hes.lookup hlookup with
    | table hsound => exact hes.set (.table hsound)
  · cases hchange

theorem Sound.openElement {path : List String} {root : Entries} (h : entries.Sound)
    (hopen : Entries.openElement path key entries = some root) : root.Sound := by
  refine h.update (fun _ es es' hes hchange => ?_) hopen
  split at hchange
  · obtain rfl := Option.some.inj hchange
    exact hes.set (.tables (by simp) (by simp))
  · next finished last hlookup =>
    obtain rfl := Option.some.inj hchange
    cases hes.lookup hlookup with
    | tables hfinished hlast =>
      refine hes.set (.tables (fun es hes => ?_) (by simp))
      rcases List.mem_append.1 hes with hes | hes
      · exact hfinished es hes
      · obtain rfl := List.mem_singleton.1 hes
        exact hlast
  · cases hchange

theorem Sound.assignIn {header path : List String} {j : Json} {root : Entries} (h : entries.Sound)
    (hj : j.hasDistinctNames = true)
    (hassign : Entries.assignIn header path key j entries = some root) : root.Sound :=
  h.update (fun _ _ _ hes hchange => hes.assign hj hchange) hassign

end Entries

theorem yields_assignment {value : Reader Json} (h : YieldsDistinct value) :
    Yields (fun a => a.value.hasDistinctNames = true) (assignment value) := by
  refine yields_bind fun _ => yields_bind fun _ => yields_bind fun _ => ?_
  exact h.bind fun j hj => yields_pure hj

theorem yields_float : YieldsDistinct float := by
  refine yields_bind fun _ => yields_bind fun _ => yields_bind fun _ => ?_
  dsimp only
  split
  · exact (yields_failure (P := fun _ => False)).bind fun _ hnever => hnever.elim
  · split
    · exact yields_pure rfl
    · exact yields_pure rfl
    · exact yields_pure rfl
    · exact yields_failure

theorem yields_notFinite : YieldsDistinct notFinite :=
  yields_bind fun _ => yields_bind fun _ => yields_pure rfl

theorem yields_scalar : YieldsDistinct scalar := by
  have hstring : YieldsDistinct (Json.string <$> stringText) :=
    (yields_true stringText).map fun _ _ => rfl
  have hbool : YieldsDistinct (Json.bool <$> boolean) := (yields_true boolean).map fun _ _ => rfl
  have hdate : YieldsDistinct (scalar.dateTimeJson <$> dateTime) :=
    (yields_true dateTime).map fun _ _ => rfl
  have hinteger : YieldsDistinct ((fun n => Json.number (.int n)) <$> integer) :=
    (yields_true integer).map fun _ _ => rfl
  exact hstring.orElse (hbool.orElse (hdate.orElse
    (yields_float.orElse (yields_notFinite.orElse hinteger))))

theorem yields_arrayOf {value : Reader Json} (h : YieldsDistinct value) :
    YieldsDistinct (arrayOf value) := by
  refine yields_bind fun _ => yields_bind fun _ => ?_
  refine Yields.bind (Yields.optional (P := fun items => ∀ j ∈ items, j.hasDistinctNames = true)
    ?_) fun items hitems => yields_bind fun _ => yields_pure ?_
  · refine (Yields.separated ?_ _).bind fun items hitems => yields_bind fun _ => yields_pure hitems
    exact h.bind fun v hv => yields_bind fun _ => yields_pure hv
  · cases items with
    | none => rfl
    | some items => exact hasDistinctNames_array_iff.2 (hitems items rfl)

theorem foldlM_keeps {σ ι : Type} {step : σ → ι → Option σ} {P : σ → Prop} {Q : ι → Prop}
    (hstep : ∀ s i s', P s → Q i → step s i = some s' → P s') {inputs : List ι} {s s' : σ}
    (hinputs : ∀ i ∈ inputs, Q i) (hs : P s) (h : inputs.foldlM step s = some s') : P s' := by
  induction inputs generalizing s with
  | nil =>
    obtain rfl := Option.some.inj h
    exact hs
  | cons i inputs ih =>
    obtain ⟨hi, hrest⟩ := List.forall_mem_cons.1 hinputs
    rw [List.foldlM_cons] at h
    obtain ⟨next, hnext, h⟩ := Option.bind_eq_some_iff.1 h
    exact ih hrest (hstep s i next hs hi hnext) h

theorem yields_inlineTable {value : Reader Json} (h : YieldsDistinct value) :
    YieldsDistinct (inlineTable value) := by
  refine yields_bind fun _ => ?_
  refine Yields.bind (Yields.optional
    (P := fun parts : List Assignment => ∀ a ∈ parts, a.value.hasDistinctNames = true) ?_)
    fun parts hparts => yields_bind fun _ => yields_bind fun _ => ?_
  · refine Yields.separated ?_ _
    exact (yields_assignment h).bind fun a ha => yields_bind fun _ => yields_pure ha
  · have hassigned : ∀ a ∈ parts.getD [], a.value.hasDistinctNames = true := by
      cases parts with
      | none => simp
      | some parts => exact hparts parts rfl
    dsimp only
    split
    · next entries hbuilt =>
      have hsound : entries.Sound :=
        foldlM_keeps (fun _ _ _ hes ha hstep => hes.assign ha hstep) hassigned
          (by simp [Entries.Sound]) hbuilt
      exact yields_pure (Entries.hasDistinctNames_toJson hsound)
    · exact yields_failure

theorem yields_value (depth : Nat) : YieldsDistinct (value depth) := by
  induction depth with
  | zero => exact yields_scalar
  | succ depth ih =>
    refine yields_bind fun c => ?_
    split
    · exact yields_arrayOf ih
    · exact yields_inlineTable ih
    · exact yields_scalar

def Directive.Sound : Directive → Prop
  | .assign a => a.value.hasDistinctNames = true
  | _ => True

theorem yields_header : Yields Directive.Sound directive.header := by
  refine yields_bind fun _ => yields_bind fun c => ?_
  split
  · exact yields_bind fun _ => yields_bind fun _ => yields_bind fun _ => yields_pure trivial
  · exact yields_bind fun _ => yields_bind fun _ => yields_pure trivial

theorem yields_directive : Yields Directive.Sound directive := by
  refine yields_bind fun c => ?_
  split
  · exact yields_header
  · exact (yields_assignment (yields_value _)).map fun a ha => ha

theorem yields_line : Yields (fun d? => ∀ d ∈ d?, d.Sound) line := by
  refine yields_bind fun _ => yields_bind fun c => ?_
  split
  · exact yields_failure
  · split
    · exact yields_bind fun _ => yields_pure (by simp)
    · exact yields_directive.bind fun d hd => yields_bind fun _ => yields_pure (by simpa using hd)

theorem yields_directives : Yields (fun ds => ∀ d ∈ ds, d.Sound) directives := by
  refine yields_bind fun _ => yields_line.many.bind fun lines hlines =>
    yields_bind fun _ => yields_pure fun d hd => ?_
  obtain ⟨d?, hmem, hd?⟩ := List.mem_filterMap.1 hd
  exact hlines d? hmem d hd?

theorem Progress.sound_step {p p' : Progress} {d : Directive} (hp : p.root.Sound) (hd : d.Sound)
    (h : p.step d = some p') : p'.root.Sound := by
  cases d with
  | table path key =>
    obtain ⟨root, hroot, h⟩ := Option.bind_eq_some_iff.1 h
    obtain rfl := Option.some.inj h
    exact hp.openTable hroot
  | element path key =>
    obtain ⟨root, hroot, h⟩ := Option.bind_eq_some_iff.1 h
    obtain rfl := Option.some.inj h
    exact hp.openElement hroot
  | assign a =>
    obtain ⟨root, hroot, h⟩ := Option.bind_eq_some_iff.1 h
    obtain rfl := Option.some.inj h
    exact hp.assignIn hd hroot

theorem hasDistinctNames_of_ofText? {text : String} {j : Json} (h : ofText? text = some j) :
    j.hasDistinctNames = true := by
  obtain ⟨ds, hds, h⟩ := Option.bind_eq_some_iff.1 h
  obtain ⟨p, hp, h⟩ := Option.bind_eq_some_iff.1 h
  obtain rfl := Option.some.inj h
  have hsound : p.root.Sound := foldlM_keeps (P := fun p => p.root.Sound)
    (fun _ _ _ => Progress.sound_step) (yields_directives.run? hds) (by simp [Entries.Sound]) hp
  exact Entries.hasDistinctNames_toJson hsound

end Toml

/-- A document that is read from a text has distinct names, in either format. -/
theorem Format.hasDistinctNames_of_read? {f : Format} {text : String} {j : Json}
    (h : f.read? text = some j) : j.hasDistinctNames = true := by
  cases f with
  | json => exact Json.hasDistinctNames_of_ofText? h
  | toml => exact Toml.hasDistinctNames_of_ofText? h

end AccessRules
