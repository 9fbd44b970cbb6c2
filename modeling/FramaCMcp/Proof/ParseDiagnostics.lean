/-
This file says when the summary of a parse log tells the warnings of the log.
-/

import FramaCMcp.Proof.WarningTags

namespace FramaCMcp.ParseDiagnostics

section Records

/-- One event is a site of a category, or a site that cannot be written. -/
abbrev Event := String × Option Json

/-- The report counts the warnings one after the other. -/
def recordAll (categories : OrderedMap String (Sample Json)) (events : List Event) :
    Option (OrderedMap String (Sample Json)) :=
  events.foldlM (fun categories event => record categories event.1 event.2) categories

/-- These are the places of the warnings of one category, in their order. -/
def sitesOf (key : String) (events : List Event) : List (Option Json) :=
  (events.filter fun event => event.1 = key).map Prod.snd

/-- Each category holds the count and the sample of its own warnings. -/
def Tallied (events : List Event) (categories : OrderedMap String (Sample Json)) : Prop :=
  ∀ key, Sample.Tallies astDiagnosticSample (sitesOf key events) ((categories.lookup key).getD {})

variable {categories next : OrderedMap String (Sample Json)} {events : List Event} {event : Event}

theorem sitesOf_append (key : String) (events more : List Event) :
    sitesOf key (events ++ more) = sitesOf key events ++ sitesOf key more := by
  rw [sitesOf, List.filter_append, List.map_append, sitesOf, sitesOf]

theorem sitesOf_own (event : Event) : sitesOf event.1 [event] = [event.2] := by
  simp [sitesOf]

theorem sitesOf_other {key : String} (other : event.1 ≠ key) : sitesOf key [event] = [] := by
  simp [sitesOf, other]

theorem tallied_empty : Tallied [] .empty := fun _ => Sample.tallies_nil

/-- One more warning changes its own category and no other. -/
theorem Tallied.record_some (tallied : Tallied events categories)
    (recorded : record categories event.1 event.2 = some next) :
    Tallied (events ++ [event]) next := by
  obtain ⟨entry, added, rfl⟩ := Option.map_eq_some_iff.mp recorded
  intro key
  rw [sitesOf_append, OrderedMap.lookup_insert]
  by_cases own : event.1 = key
  · subst own
    rw [if_pos rfl, sitesOf_own, Option.getD_some]
    exact (tallied event.1).add_some added
  · rw [if_neg (Ne.symm own), sitesOf_other own, List.append_nil]
    exact tallied key

theorem Tallied.record_none (tallied : Tallied events categories)
    (failed : record categories event.1 event.2 = none) :
    none ∈ (sitesOf event.1 (events ++ [event])).take astDiagnosticSample := by
  rw [sitesOf_append, sitesOf_own]
  exact (tallied event.1).add_none (Option.map_eq_none_iff.mp failed)

/-- The run succeeds and counts the events, or a site that is kept cannot be written. -/
theorem recordAll_cases (events : List Event) :
    (∃ categories, recordAll .empty events = some categories ∧ Tallied events categories) ∨
      recordAll .empty events = none ∧
        ∃ key, none ∈ (sitesOf key events).take astDiagnosticSample := by
  induction events using List.reverseRecOn with
  | nil => exact .inl ⟨.empty, rfl, tallied_empty⟩
  | append_singleton events event ih =>
      rw [recordAll, List.foldlM_append]
      rcases ih with ⟨categories, run, tallied⟩ | ⟨failed, key, absent⟩
      · rw [recordAll] at run
        rw [run]
        cases step : record categories event.1 event.2 with
        | none => exact .inr ⟨by simp [step], event.1, tallied.record_none step⟩
        | some next => exact .inl ⟨next, by simp [step], tallied.record_some step⟩
      · rw [recordAll] at failed
        rw [failed]
        refine .inr ⟨rfl, key, ?_⟩
        rw [sitesOf_append]
        exact ((List.prefix_append _ _).take _).subset absent

end Records

section Scans

variable (cwd : OsPath)

/-- This is the step of the scan without the sites. -/
def nameLine (scan : Scan) (line : Line) : Scan :=
  match fields line with
  | some (category, source) =>
      if String.ofList category = attrsUnknown then
        match Utf8.splitOnce attributePrefix line with
        | some (_, name) => scan.nameAttribute name source
        | none => { scan with pendingAttribute := some source }
      else { scan with pendingAttribute := none }
  | none =>
      match Utf8.splitOnce attributePrefix line with
      | some (_, name) => scan.nameAttribute name (scan.pendingAttribute.getD [])
      | none => scan

/-- A warning of another category than unknown attributes is a site. -/
def siteOf (line : Line) : Option (String × Line) :=
  (fields line).bind fun parts =>
    if String.ofList parts.1 = attrsUnknown then none else some (String.ofList parts.1, parts.2)

def siteEvent (site : String × Line) : Event := (site.1, logLocation site.2 cwd)

theorem nameLine_categories (scan : Scan) (line : Line)
    (categories : OrderedMap String (Sample Json)) :
    nameLine { scan with categories := categories } line =
      { nameLine scan line with categories := categories } := by
  rw [nameLine, nameLine]
  split
  · split_ifs
    · split <;> rfl
    · rfl
  · split <;> rfl

theorem readLine_eq (scan : Scan) (line : Line) :
    readLine cwd scan line =
      (recordAll scan.categories ((siteOf line).map (siteEvent cwd)).toList).map fun categories =>
        { nameLine scan line with categories := categories } := by
  rw [readLine, warningLineFields_eq, Option.bind_eq_bind, Option.bind_some, nameLine, siteOf]
  cases read : fields line with
  | none =>
      cases Utf8.splitOnce attributePrefix line with
      | none => rfl
      | some parts => rfl
  | some parts =>
      rcases parts with ⟨category, source⟩
      dsimp only [Option.bind_some]
      split_ifs with unknown
      · cases Utf8.splitOnce attributePrefix line with
        | none => rfl
        | some parts => rfl
      · rw [Option.map_some, Option.toList_some, siteEvent, recordAll, List.foldlM_cons]
        cases record scan.categories (String.ofList category) (logLocation source cwd) <;> rfl

theorem foldl_nameLine_categories (lines : List Line) (scan : Scan)
    (categories : OrderedMap String (Sample Json)) :
    lines.foldl nameLine { scan with categories := categories } =
      { lines.foldl nameLine scan with categories := categories } := by
  induction lines generalizing scan with
  | nil => rfl
  | cons line rest ih => rw [List.foldl_cons, List.foldl_cons, nameLine_categories, ih]

theorem recordAll_append (categories : OrderedMap String (Sample Json)) (events more : List Event) :
    recordAll categories (events ++ more) =
      (recordAll categories events).bind fun next => recordAll next more := List.foldlM_append

def siteEvents (lines : List Line) : List Event := (lines.filterMap siteOf).map (siteEvent cwd)

/-- The scan of the lines records the sites and names the attributes. -/
theorem foldlM_readLine (lines : List Line) (scan : Scan) :
    lines.foldlM (readLine cwd) scan =
      (recordAll scan.categories (siteEvents cwd lines)).map fun categories =>
        { lines.foldl nameLine scan with categories := categories } := by
  induction lines generalizing scan with
  | nil => rfl
  | cons line rest ih =>
      have events : siteEvents cwd (line :: rest) =
          ((siteOf line).map (siteEvent cwd)).toList ++ siteEvents cwd rest := by
        rw [siteEvents, siteEvents]
        cases site : siteOf line <;> simp [site]
      rw [List.foldlM_cons, readLine_eq, events, recordAll_append]
      cases recordAll scan.categories ((siteOf line).map (siteEvent cwd)).toList with
      | none => rfl
      | some categories =>
          rw [Option.map_some, Option.bind_some, Option.bind_eq_bind, Option.bind_some, ih,
            foldl_nameLine_categories]
          rfl

/-- These are the names of unknown attributes with their first locations. -/
def attributesOf (lines : List Line) : OrderedMap String Line := (lines.foldl nameLine {}).attributes

def attributeEvents (lines : List Line) : List Event :=
  (attributesOf lines).entries.map fun entry => (attrsUnknown, attributeSite cwd entry)

def eventsOf (lines : List Line) : List Event := siteEvents cwd lines ++ attributeEvents cwd lines

end Scans

section Summaries

variable (cwd : OsPath)

def linesOf (log : List UInt8) (stop : Nat) : List Line :=
  WpPrint.linesFrom [] (Utf8.lossy (log.take (min stop log.length)))

def reportOf (category : String) (entry : Sample Json) : Json :=
  .obj [("count", .num entry.count),
    ("count_unit", .str (if category = attrsUnknown then "distinct_attribute_names" else "sites")),
    ("locations_omitted", .num ((entry.count - entry.kept.length : Nat) : Int)),
    ("locations", .arr entry.kept)]

def summaryOf (categories : OrderedMap String (Sample Json)) : Json :=
  .obj [("categories", .obj ((astSoundnessCategories.foldl orDefault categories).entries.map
    fun entry => (entry.1, reportOf entry.1 entry.2)))]

def countOf (summary : Json) (category : String) : Nat :=
  match ((summary.index "categories").index category).index "count" with
  | .num count => count.toNat
  | _ => 0

variable {events : List Event} {categories : OrderedMap String (Sample Json)}

theorem lookup_orDefault (category key : String) :
    ((orDefault categories category).lookup key).getD {} = (categories.lookup key).getD {} := by
  rw [orDefault, OrderedMap.lookup_modify]
  split_ifs with same
  · rw [same]
    rfl
  · rfl

/-- A category without warnings is reported with a count of zero. -/
theorem Tallied.withDefaults (tallied : Tallied events categories) :
    Tallied events (astSoundnessCategories.foldl orDefault categories) := by
  intro key
  rw [astSoundnessCategories, List.foldl_cons, List.foldl_cons, List.foldl_nil, lookup_orDefault,
    lookup_orDefault]
  exact tallied key

theorem mapM_categoryReport (tallied : Tallied events categories) :
    categories.entries.mapM categoryReport =
      some (categories.entries.map fun entry => (entry.1, reportOf entry.1 entry.2)) := by
  have each : ∀ entry ∈ categories.entries,
      categoryReport entry = some (entry.1, reportOf entry.1 entry.2) := by
    intro entry member
    have found := (categories.mem_entries_iff entry.1 entry.2).mp member
    have fits := (tallied entry.1).kept_le_count
    rw [found, Option.getD_some] at fits
    exact if_pos fits
  generalize categories.entries = entries at each
  induction entries with
  | nil => rfl
  | cons entry rest ih =>
      obtain ⟨own, others⟩ := List.forall_mem_cons.mp each
      rw [List.mapM_cons, own, ih others]
      rfl

theorem lookup_reports (entries : List (String × Sample Json)) (category : String) :
    (entries.map fun entry => (entry.1, reportOf entry.1 entry.2)).lookup category =
      (entries.lookup category).map (reportOf category) := by
  induction entries with
  | nil => rfl
  | cons entry rest ih =>
      rw [List.map_cons, List.lookup_cons, List.lookup_cons]
      cases same : category == entry.1 with
      | true =>
          rw [beq_iff_eq.mp same]
          rfl
      | false => exact ih

/-- The report counts each warning once. -/
theorem countOf_summaryOf (tallied : Tallied events categories) (category : String) :
    countOf (summaryOf categories) category = (sitesOf category events).length := by
  rw [← (tallied.withDefaults category).count, countOf, summaryOf]
  have named (fields : List (String × Json)) :
      (Json.obj [("categories", .obj fields)]).index "categories" = .obj fields := rfl
  have picked (fields : List (String × Json)) :
      (Json.obj fields).index category = (fields.lookup category).getD .null := rfl
  rw [named, picked, lookup_reports]
  change _ = (((astSoundnessCategories.foldl orDefault categories).entries.lookup category).getD
    {}).count
  cases (astSoundnessCategories.foldl orDefault categories).entries.lookup category with
  | none => rfl
  | some entry => rfl

theorem astParseDiagnostics_eq (log : List UInt8) (stop : Nat) :
    astParseDiagnostics log stop cwd =
      (recordAll .empty (eventsOf cwd (linesOf log stop))).bind fun categories =>
        ((astSoundnessCategories.foldl orDefault categories).entries.mapM categoryReport).bind
          fun reports => some (.obj [("categories", .obj reports)]) := by
  have attributes (categories : OrderedMap String (Sample Json)) :
      (attributesOf (linesOf log stop)).entries.foldlM (fun categories entry =>
          record categories attrsUnknown (attributeSite cwd entry)) categories =
        recordAll categories (attributeEvents cwd (linesOf log stop)) := by
    rw [recordAll, attributeEvents, List.foldlM_map]
  have scanned := foldlM_readLine cwd (linesOf log stop) {}
  simp only [astParseDiagnostics, Option.bind_eq_bind]
  change ((linesOf log stop).foldlM (readLine cwd) {}).bind _ = _
  rw [scanned, eventsOf, recordAll_append, Option.bind_assoc]
  cases recordAll .empty (siteEvents cwd (linesOf log stop)) with
  | none => rfl
  | some categories =>
      rw [Option.map_some, Option.bind_some, Option.bind_some, ← attributes]
      rfl

/-- The summary tells what the events were, or a site that is kept cannot be written. -/
theorem astParseDiagnostics_cases (log : List UInt8) (stop : Nat) :
    (∃ categories, Tallied (eventsOf cwd (linesOf log stop)) categories ∧
      astParseDiagnostics log stop cwd = some (summaryOf categories)) ∨
    astParseDiagnostics log stop cwd = none ∧
      ∃ key, none ∈ (sitesOf key (eventsOf cwd (linesOf log stop))).take astDiagnosticSample := by
  rw [astParseDiagnostics_eq]
  rcases recordAll_cases (eventsOf cwd (linesOf log stop)) with
    ⟨categories, run, tallied⟩ | ⟨failed, absent⟩
  · left
    refine ⟨categories, tallied, ?_⟩
    rw [run, Option.bind_some, mapM_categoryReport tallied.withDefaults, Option.bind_some,
      summaryOf]
  · right
    refine ⟨?_, absent⟩
    rw [failed, Option.bind_none]

end Summaries

section Sources

variable (cwd : OsPath) {lines : List Line} {line : Line} {key : String}

/-- These are the sources of all sites. Each attribute name has its first source. -/
def recordedOf (lines : List Line) : List (String × Line) :=
  lines.filterMap siteOf ++ (attributesOf lines).entries.map fun entry => (attrsUnknown, entry.2)

def sourcesOf (key : String) (lines : List Line) : List Line :=
  ((recordedOf lines).filter fun site => site.1 = key).map Prod.snd

/-- The location of this source can be written. -/
def Placed (source : Line) : Prop :=
  (∃ directory, cwd = .text directory) ∨ trimSource source = [] ∨
    Path.isAbsolute (String.ofList (splitLocation (trimSource source)).1) = true

theorem isNone_logLocation (source : Line) :
    (logLocation source cwd).isNone = true ↔ ¬ Placed cwd source := by
  rw [logLocation, Placed, not_or, not_or]
  dsimp only
  split_ifs with empty
  · simp [empty]
  · rw [Option.isNone_map]
    by_cases rooted : Path.isAbsolute (String.ofList (splitLocation (trimSource source)).1) = true
    · simp [joinCwd, rooted]
    · cases cwd with
      | text directory => simp [joinCwd, rooted]
      | bytes path noText => simp [joinCwd, empty, rooted]

theorem isNone_attributeSite (entry : String × Line) :
    (attributeSite cwd entry).isNone = (logLocation entry.2 cwd).isNone := Option.isNone_map

/-- A site cannot be written where its source cannot be placed. -/
theorem map_isNone_sitesOf (key : String) (lines : List Line) :
    (sitesOf key (eventsOf cwd lines)).map Option.isNone =
      (sourcesOf key lines).map fun source => (logLocation source cwd).isNone := by
  have own (sites : List (String × Line)) :
      (sitesOf key (sites.map (siteEvent cwd))).map Option.isNone =
        ((sites.filter fun site => site.1 = key).map Prod.snd).map fun source =>
          (logLocation source cwd).isNone := by
    rw [sitesOf, List.filter_map, List.map_map, List.map_map, List.map_map]
    rfl
  have named (entries : List (String × Line)) :
      (sitesOf key (entries.map fun entry => (attrsUnknown, attributeSite cwd entry))).map
          Option.isNone =
        (((entries.map fun entry => (attrsUnknown, entry.2)).filter fun site =>
          site.1 = key).map Prod.snd).map fun source => (logLocation source cwd).isNone := by
    rw [sitesOf, List.filter_map, List.filter_map, List.map_map, List.map_map, List.map_map,
      List.map_map]
    exact List.map_congr_left fun entry _ => isNone_attributeSite cwd entry
  rw [eventsOf, sitesOf_append, List.map_append, siteEvents, own, attributeEvents, named, sourcesOf,
    recordedOf, List.filter_append, List.map_append, List.map_append]

theorem none_mem_take_iff (key : String) (lines : List Line) :
    none ∈ (sitesOf key (eventsOf cwd lines)).take astDiagnosticSample ↔
      ∃ source ∈ (sourcesOf key lines).take astDiagnosticSample, ¬ Placed cwd source := by
  have bits := congrArg (List.take astDiagnosticSample) (map_isNone_sitesOf cwd key lines)
  rw [← List.map_take, ← List.map_take] at bits
  have left : none ∈ (sitesOf key (eventsOf cwd lines)).take astDiagnosticSample ↔
      true ∈ ((sitesOf key (eventsOf cwd lines)).take astDiagnosticSample).map Option.isNone := by
    rw [List.mem_map]
    constructor
    · exact fun member => ⟨none, member, rfl⟩
    · rintro ⟨site, member, missing⟩
      exact Option.isNone_iff_eq_none.mp missing ▸ member
  rw [left, bits, List.mem_map]
  exact exists_congr fun source => and_congr_right fun _ => isNone_logLocation cwd source

/-- A line is counted for the category that it shows. -/
theorem siteOf_iff : (siteOf line).map Prod.fst = some key ↔
    key ≠ attrsUnknown ∧ Shows line key.toList := by
  rw [← category_eq_some_iff, siteOf]
  cases read : fields line with
  | none => simp
  | some parts =>
      rw [Option.bind_some, Option.map_some, Option.some.injEq]
      have names : parts.1 = key.toList ↔ String.ofList parts.1 = key := by
        constructor
        · intro same
          rw [same, String.ofList_toList]
        · rintro rfl
          rw [String.toList_ofList]
      rw [names]
      split_ifs with unknown
      · simp only [Option.map_none, reduceCtorEq, false_iff, not_and]
        intro other same
        exact other (same.symm.trans unknown)
      · rw [Option.map_some, Option.some.injEq]
        constructor
        · rintro rfl
          exact ⟨unknown, rfl⟩
        · exact fun both => both.2

open Classical in
/-- The count of a category is the number of lines that show it. -/
theorem length_sitesOf (other : key ≠ attrsUnknown) (lines : List Line) :
    (sitesOf key (eventsOf cwd lines)).length =
      lines.countP fun line => decide (Shows line key.toList) := by
  have named : sitesOf key (attributeEvents cwd lines) = [] := by
    rw [sitesOf, attributeEvents, List.filter_eq_nil_iff.mpr, List.map_nil]
    intro event member
    obtain ⟨entry, _, rfl⟩ := List.mem_map.mp member
    simpa using other.symm
  rw [eventsOf, sitesOf_append, named, List.append_nil, sitesOf, List.length_map, siteEvents]
  clear named
  induction lines with
  | nil => rfl
  | cons line rest ih =>
      cases site : siteOf line with
      | none =>
          have hidden : ¬ Shows line key.toList := by
            intro shown
            have found := siteOf_iff.mpr ⟨other, shown⟩
            rw [site] at found
            cases found
          rw [List.filterMap_cons_none site, List.countP_cons_of_neg (by simpa using hidden)]
          exact ih
      | some parts =>
          rw [List.filterMap_cons_some site, List.map_cons, List.filter_cons]
          by_cases own : (siteEvent cwd parts).1 = key
          · have shown : Shows line key.toList := (siteOf_iff.mp (by rw [site, ← own]; rfl)).2
            rw [if_pos (decide_eq_true own), List.length_cons, ih,
              List.countP_cons_of_pos (by simpa using shown)]
          · have hidden : ¬ Shows line key.toList := by
              intro shown
              have found := siteOf_iff.mpr ⟨other, shown⟩
              rw [site] at found
              exact own (Option.some.inj found)
            rw [if_neg (mt of_decide_eq_true own), ih,
              List.countP_cons_of_neg (by simpa using hidden)]

/-- The line names an unknown attribute, and it shows no other category. -/
def Tells (line : Line) : Prop :=
  (∃ before name, line = before ++ attributePrefix ++ name) ∧
    ∀ category, Shows line category → String.ofList category = attrsUnknown

theorem splitOnce_isSome_iff {needle text : Line} : (Utf8.splitOnce needle text).isSome = true ↔
    ∃ before after, text = before ++ needle ++ after := by
  cases found : Utf8.splitOnce needle text with
  | none =>
      refine ⟨nofun, ?_⟩
      rintro ⟨before, after, whole⟩
      exact absurd whole (Utf8.splitOnce_none found before after)
  | some parts => exact ⟨fun _ => ⟨_, _, (Utf8.splitOnce_some found).1⟩, fun _ => rfl⟩

theorem lookup_nameAttribute (scan : Scan) (name source : Line) :
    ∃ key, ((scan.nameAttribute name source).attributes.lookup key).isSome = true := by
  refine ⟨String.ofList (Line.trim name), ?_⟩
  rw [Scan.nameAttribute]
  dsimp only
  split_ifs with known
  · exact known
  · rw [OrderedMap.lookup_insert, if_pos rfl]
    rfl

def Named (scan : Scan) : Prop := ∃ key, (scan.attributes.lookup key).isSome = true

theorem Named.nameAttribute {scan : Scan} (name source : Line) :
    Named (scan.nameAttribute name source) := lookup_nameAttribute scan name source

theorem tells_iff (line : Line) : Tells line ↔
    (Utf8.splitOnce attributePrefix line).isSome = true ∧
      ∀ parts ∈ fields line, String.ofList parts.1 = attrsUnknown := by
  rw [Tells, splitOnce_isSome_iff]
  apply and_congr_right
  intro _
  constructor
  · intro only parts read
    exact only parts.1 (category_eq_some_iff.mp (by rw [Option.mem_def.mp read, Option.map_some]))
  · intro only category shown
    obtain ⟨parts, read, rfl⟩ := Option.map_eq_some_iff.mp (category_eq_some_iff.mpr shown)
    exact only parts read

/-- A line adds a name exactly where it tells one. -/
theorem named_nameLine (scan : Scan) (line : Line) :
    Named (nameLine scan line) ↔ Named scan ∨ Tells line := by
  rw [tells_iff, nameLine]
  cases read : fields line with
  | none =>
      cases Utf8.splitOnce attributePrefix line with
      | none => simp
      | some parts => simp [Named.nameAttribute]
  | some parts =>
      rcases parts with ⟨category, source⟩
      dsimp only
      split_ifs with unknown
      · cases Utf8.splitOnce attributePrefix line with
        | none => simp [Named]
        | some parts => simp [Named.nameAttribute, unknown]
      · simp [Named, unknown]

theorem named_foldl (lines : List Line) (scan : Scan) :
    Named (lines.foldl nameLine scan) ↔ Named scan ∨ ∃ line ∈ lines, Tells line := by
  induction lines generalizing scan with
  | nil => simp
  | cons line rest ih =>
      rw [List.foldl_cons, ih, named_nameLine, or_assoc]
      simp

/-- Unknown attributes are counted where some line tells of one. -/
theorem attributes_counted_iff (lines : List Line) :
    0 < (sitesOf attrsUnknown (eventsOf cwd lines)).length ↔ ∃ line ∈ lines, Tells line := by
  have sites : sitesOf attrsUnknown (siteEvents cwd lines) = [] := by
    rw [sitesOf, siteEvents, List.filter_eq_nil_iff.mpr, List.map_nil]
    intro event member
    obtain ⟨site, found, rfl⟩ := List.mem_map.mp member
    obtain ⟨line, _, read⟩ := List.mem_filterMap.mp found
    have known := (@siteOf_iff line site.1).mp (by rw [read]; rfl)
    exact fun counted => known.1 (of_decide_eq_true counted)
  have all : (sitesOf attrsUnknown (attributeEvents cwd lines)).length =
      (attributesOf lines).entries.length := by
    rw [sitesOf, attributeEvents, List.filter_eq_self.mpr, List.length_map, List.length_map]
    intro event member
    obtain ⟨entry, _, rfl⟩ := List.mem_map.mp member
    exact decide_eq_true rfl
  have empty : ¬ Named {} := by
    rintro ⟨key, found⟩
    cases found
  have named : Named (lines.foldl nameLine {}) ↔ ∃ line ∈ lines, Tells line := by
    rw [named_foldl, or_iff_right empty]
  rw [eventsOf, sitesOf_append, sites, List.nil_append, all, ← named, attributesOf, Named,
    List.length_pos_iff_exists_mem]
  constructor
  · rintro ⟨entry, member⟩
    have found := ((lines.foldl nameLine {}).attributes.mem_entries_iff entry.1 entry.2).mp member
    exact ⟨entry.1, by rw [found]; rfl⟩
  · rintro ⟨key, found⟩
    obtain ⟨source, same⟩ := Option.isSome_iff_exists.mp found
    exact ⟨(key, source), (OrderedMap.mem_entries_iff _ _ _).mpr same⟩

end Sources

end FramaCMcp.ParseDiagnostics
