import BuildPlan.Json.Record
import BuildPlan.Proofs.Catalog
import BuildPlan.Proofs.Json.Printer
import Mathlib.Data.List.Nodup

/-!
# Reading records back

A record is read back from the members that are written for it: those of its fields that have a value, in their order
(`Json.fields?_eq`, `Json.required?_eq`). Members that are no fields make no difference. Lists of texts, optional texts and
keyed values are read back from what is written for them.
-/

namespace BuildPlan

/-- A list that is written item by item is read item by item. -/
theorem mapM_map_eq_some {α β γ : Type} {write : α → β} {read : β → Option γ} {result : α → γ} {l : List α}
    (h : ∀ a ∈ l, read (write a) = some (result a)) : (l.map write).mapM read = some (l.map result) := by
  induction l with
  | nil => rfl
  | cons a l ih =>
    rw [List.map_cons, List.mapM_cons, h a List.mem_cons_self, ih (fun b hb => h b (List.mem_cons_of_mem _ hb))]
    rfl

/-- What was written item by item is read back item by item. -/
theorem mapM_map_eq_self {α β : Type} {write : α → β} {read : β → Option α} {l : List α}
    (h : ∀ a ∈ l, read (write a) = some a) : (l.map write).mapM read = some l := by
  rw [mapM_map_eq_some h, List.map_id']

namespace Json

/-! ### Fields -/

/-- The members that are written for some fields: those that have a value. -/
def fieldMembers : List ((String × Presence) × Option Json) → List (String × Json)
  | [] => []
  | ((name, _), some j) :: fields => (name, j) :: fieldMembers fields
  | (_, none) :: fields => fieldMembers fields

/-- The names of some fields. -/
def namesOf (fields : List ((String × Presence) × Option Json)) : List String := fields.map fun f => f.1.1

variable {fields : List ((String × Presence) × Option Json)}

/-- A member that is written has the value of a field. -/
theorem some_mem_of_mem_fieldMembers {m : String × Json} (h : m ∈ fieldMembers fields) :
    some m.2 ∈ fields.map Prod.snd := by
  induction fields with
  | nil => cases h
  | cons f fields ih =>
    obtain ⟨⟨field, presence⟩, _ | j⟩ := f
    · exact List.mem_cons_of_mem _ (ih h)
    · rcases List.mem_cons.mp h with rfl | h
      · exact List.mem_cons_self
      · exact List.mem_cons_of_mem _ (ih h)

/-- What is written for fields is sound if their values are. -/
theorem sound_of_mem_fieldMembers {names : List (String × Presence)} {values : List (Option Json)}
    (h : ∀ v ∈ values, ∀ j, v = some j → j.Sound) {m : String × Json} (hm : m ∈ fieldMembers (names.zip values)) :
    m.2.Sound := by
  obtain ⟨f, hf, hvalue⟩ := List.mem_map.mp (some_mem_of_mem_fieldMembers hm)
  exact h f.2 (List.of_mem_zip hf).2 m.2 hvalue

/-- No member is written under a name that is no field. -/
theorem filter_fieldMembers_of_not_mem {name : String} (h : name ∉ namesOf fields) :
    (fieldMembers fields).filter (fun m => m.1 == name) = [] := by
  induction fields with
  | nil => rfl
  | cons f fields ih =>
    have hne := List.ne_of_not_mem_cons h
    have hrest := List.not_mem_of_not_mem_cons h
    obtain ⟨⟨field, presence⟩, _ | j⟩ := f
    · exact ih hrest
    · rw [fieldMembers, List.filter_cons_of_neg (by simpa using Ne.symm hne)]
      exact ih hrest

/-- The members of a name are the one of its field. -/
theorem filter_fieldMembers (hnodup : (namesOf fields).Nodup) {name : String} {presence : Presence} {value : Option Json}
    (hf : ((name, presence), value) ∈ fields) :
    (fieldMembers fields).filter (fun m => m.1 == name) = (value.map (name, ·)).toList := by
  induction fields with
  | nil => cases hf
  | cons g fields ih =>
    obtain ⟨hnew, hrest⟩ := List.nodup_cons.mp hnodup
    rcases List.mem_cons.mp hf with rfl | hf'
    · have hnone := filter_fieldMembers_of_not_mem hnew
      cases value with
      | none => exact hnone
      | some j =>
        rw [fieldMembers, List.filter_cons_of_pos (by simp), hnone]
        rfl
    · have hne : g.1.1 ≠ name := by
        rintro rfl
        exact hnew (List.mem_map.mpr ⟨_, hf', rfl⟩)
      obtain ⟨⟨field, presence'⟩, _ | j⟩ := g
      · exact ih hrest hf'
      · rw [fieldMembers, List.filter_cons_of_neg (by simpa using hne)]
        exact ih hrest hf'

/-- A member is looked up as the first one of its name. -/
theorem lookup_eq_head? (members : List (String × Json)) (name : String) :
    members.lookup name = ((members.filter (fun m => m.1 == name)).map Prod.snd).head? := by
  induction members with
  | nil => rfl
  | cons m members ih =>
    by_cases h : m.1 = name
    · have hname : (name == m.1) = true := by simpa using h.symm
      rw [List.filter_cons_of_pos (by simpa using h), List.lookup_cons, hname]
      rfl
    · have hname : (name == m.1) = false := by simpa using Ne.symm h
      rw [List.filter_cons_of_neg (by simpa using h), List.lookup_cons, hname, ← ih]

/-- A record is read from the members that are written for it, also if there are others that are no fields: the check for
repeated names and the lookup both see of the members only those of one name. -/
theorem fields?_fieldMembers (hnodup : (namesOf fields).Nodup) (hrequired : ∀ f ∈ fields, f.1.2 = .required → f.2.isSome)
    {others : List (String × Json)} (hothers : ∀ m ∈ others, m.1 ∉ namesOf fields) :
    fields? (fields.map Prod.fst) (obj (others ++ fieldMembers fields)) = some (fields.map Prod.snd) := by
  have hfilter : ∀ {name presence value}, ((name, presence), value) ∈ fields →
      (others ++ fieldMembers fields).filter (fun m => m.1 == name) = (value.map (name, ·)).toList := by
    intro name presence value hf
    have hnone : others.filter (fun m => m.1 == name) = [] := by
      rw [List.filter_eq_nil_iff]
      intro m hm hname
      exact hothers m hm (List.mem_map.mpr ⟨_, hf, (beq_iff_eq.mp hname).symm⟩)
    rw [List.filter_append, hnone, List.nil_append, filter_fieldMembers hnodup hf]
  have hsingle : (fields.map Prod.fst).any (fun f => isRepeated (others ++ fieldMembers fields) f.1) = false := by
    rw [List.any_eq_false]
    intro f hf
    obtain ⟨⟨⟨name, presence⟩, value⟩, hmem, rfl⟩ := List.mem_map.mp hf
    rw [isRepeated, hfilter hmem]
    cases value with
    | none => simp
    | some j => simp
  rw [fields?, if_neg (by rw [hsingle]; decide)]
  refine mapM_map_eq_some (fun f hf => ?_)
  obtain ⟨⟨name, presence⟩, value⟩ := f
  rw [lookup_eq_head?, hfilter hf]
  cases value with
  | some j => rfl
  | none =>
    have hoptional : presence ≠ .required := fun h => by cases hrequired _ hf h
    simp [hoptional]

/-- The fields of a record are read in their order from the members that are written for them. -/
theorem fields?_eq {names : List (String × Presence)} {values : List (Option Json)} {j : Json}
    (others : List (String × Json)) (hnodup : (names.map Prod.fst).Nodup) (hlength : values.length = names.length)
    (hrequired : (names.zip values).all (fun f => f.1.2 != .required || f.2.isSome) = true)
    (hothers : ∀ m ∈ others, m.1 ∉ names.map Prod.fst) (hj : j = obj (others ++ fieldMembers (names.zip values))) :
    fields? names j = some values := by
  have hfst : (names.zip values).map Prod.fst = names := List.map_fst_zip (Nat.le_of_eq hlength.symm)
  have hsnd : (names.zip values).map Prod.snd = values := List.map_snd_zip (Nat.le_of_eq hlength)
  have hnames : namesOf (names.zip values) = names.map Prod.fst :=
    List.map_map.symm.trans (congrArg (List.map Prod.fst) hfst)
  have hpresent : ∀ f ∈ names.zip values, f.1.2 = .required → f.2.isSome := by
    intro f hf hpresence
    simpa [hpresence] using List.all_eq_true.mp hrequired f hf
  have hread := fields?_fieldMembers (by rw [hnames]; exact hnodup) hpresent (by rw [hnames]; exact hothers)
  rw [hfst, hsnd] at hread
  rw [hj, hread]

/-- Where every field has a value, every field is written. -/
theorem fieldMembers_required (names : List String) (values : List Json) :
    fieldMembers ((names.map (·, Presence.required)).zip (values.map some)) = names.zip values := by
  induction names generalizing values with
  | nil => rfl
  | cons name names ih =>
    cases values with
    | nil => rfl
    | cons value values => exact congrArg ((name, value) :: ·) (ih values)

/-- A record of which no field may be left out is read from its members. -/
theorem required?_eq {names : List String} {values : List Json} {j : Json} (others : List (String × Json))
    (hnodup : names.Nodup) (hlength : values.length = names.length) (hothers : ∀ m ∈ others, m.1 ∉ names)
    (hj : j = obj (others ++ names.zip values)) : required? names j = some values := by
  have hnames : (names.map (·, Presence.required)).map Prod.fst = names := by
    rw [List.map_map]
    exact List.map_id' names
  have hread : fields? (names.map (·, Presence.required)) j = some (values.map some) := by
    refine fields?_eq others (by rwa [hnames]) (by simpa using hlength) ?_ (by rwa [hnames])
      (by rw [fieldMembers_required]; exact hj)
    rw [List.all_eq_true]
    intro f hf
    obtain ⟨-, hvalue⟩ := List.of_mem_zip hf
    obtain ⟨value, -, hsome⟩ := List.mem_map.mp hvalue
    rw [← hsome, Option.isSome_some, Bool.or_true]
  rw [required?, hread, Option.bind_some]
  exact mapM_map_eq_self (fun _ _ => rfl)

/-! ### Values of fields -/

/-- A list of texts is read as it was written. -/
theorem strings?_ofStrings (texts : List String) : strings? (ofStrings texts) = some texts :=
  mapM_map_eq_self (fun _ _ => rfl)

/-- A text that is left out if missing is read as it was written. -/
theorem absentOr?_str? (text : Option String) : absentOr? str? (text.map str) = some text := by
  cases text with
  | none => rfl
  | some s => rfl

/-- A text that is null if missing is read as it was written. -/
theorem nullable?_ofOption (text : Option String) : nullable? str? (ofOption text) = some text := by
  cases text with
  | none => rfl
  | some s => rfl

/-- Keyed values are read back in their order. -/
theorem keyed?_items {β : Type} {write : β → Json} {read : Json → Option β} (c : Keyed β)
    (h : ∀ v, read (write v) = some v) : keyed? read (obj (c.items.map fun e => (e.1, write e.2))) = some c := by
  have hitems : (c.items.map fun e => (e.1, write e.2)).mapM (fun m => (read m.2).map (m.1, ·)) = some c.items :=
    mapM_map_eq_self (fun e _ => by rw [h]; rfl)
  rw [keyed?, hitems]
  exact congrArg some c.ofList_items

end Json

end BuildPlan
