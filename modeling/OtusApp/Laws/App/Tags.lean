import OtusApp.Go.Path
import OtusApp.Laws.App.FileIndex

/-!
# Tags and the filter for them

An upload reads its tags from a text of items `k=v`, a list of files reads its filter from a text
`k=v` or `k`. The two parsers trim and cut in the same way, so what an upload has stored under a key
is found by the text of that binding (`splitTag_binding`). A filter without a value admits any.
-/

namespace OtusApp.Files

open Go Program Handlers.Files
open Blobstore (Tags)

/-! ## The parsers -/

/-- A binding as `parseTags` makes it. -/
structure Binding (k v : String) : Prop where
  key : k ≠ ""
  plain : '=' ∉ k.toList
  trimmed : Trimmed k
  trimmed' : Trimmed v

/-- What the assignment of a binding keeps, `parseTags` keeps. -/
theorem parsePairs_rule {P : Tags → Prop}
    (assigned : ∀ tags k v, Binding k v → P tags → P (assign tags k v)) (pairs : List String)
    {tags : Tags} (h : P tags) : P (parsePairs tags pairs) := by
  induction pairs generalizing tags with
  | nil => exact h
  | cons pair rest ih =>
    unfold parsePairs
    split
    · exact ih h
    · next k v found =>
      split
      · next key =>
        have plain : '=' ∉ k.toList := by
          have cutKey := not_mem_cut pair '='
          rw [found] at cutKey
          exact cutKey
        have trimmed : '=' ∉ (trimSpace k).toList := fun mem =>
          plain ((trimSpace_sublist k).mem mem)
        exact ih (assigned _ _ _ ⟨key, trimmed, trimSpace_trimmed k, trimSpace_trimmed v⟩ h)
      · exact ih h

theorem parseTags_rule {P : Tags → Prop}
    (assigned : ∀ tags k v, Binding k v → P tags → P (assign tags k v)) (h : P []) (raw : String) :
    P (parseTags raw) := by
  unfold parseTags
  split
  · exact h
  · exact parsePairs_rule assigned _ h

/-- Each key has one value. -/
theorem parseTags_nodup (raw : String) : ((parseTags raw).map Prod.fst).Nodup := by
  refine parseTags_rule (P := fun tags => (tags.map Prod.fst).Nodup) ?_ List.nodup_nil raw
  intro tags k v _ distinct
  rw [assign, List.map_append]
  apply List.Nodup.append
  · exact distinct.sublist (List.filter_sublist.map _)
  · exact List.nodup_singleton k
  · intro key mem same
    obtain ⟨t, kept, rfl⟩ := List.mem_map.mp mem
    exact of_decide_eq_true (List.mem_filter.mp kept).2 (List.mem_singleton.mp same)

theorem parseTags_binding {raw k v : String} (mem : (k, v) ∈ parseTags raw) : Binding k v := by
  refine parseTags_rule (P := fun tags => ∀ t ∈ tags, Binding t.1 t.2) ?_ ?_ raw (k, v) mem
  · intro tags k v binding all t mem
    rcases List.mem_append.mp mem with old | new
    · exact all t (List.mem_filter.mp old).1
    · cases List.mem_singleton.mp new
      exact binding
  · exact fun _ none => absurd none List.not_mem_nil

/-- The text of a binding has no spaces at its ends. -/
theorem Binding.trimmed_text {k v : String} (h : Binding k v) : Trimmed (k ++ "=" ++ v) := by
  have chars : (k ++ "=" ++ v).toList = k.toList ++ '=' :: v.toList := by simp
  rw [Trimmed, chars]
  constructor
  · intro c first
    cases lead : k.toList with
    | nil => exact absurd (String.toList_eq_nil_iff.mp lead) h.key
    | cons d rest =>
      rw [lead] at first
      cases first
      exact h.trimmed.1 c (by rw [lead]; rfl)
  · intro c last
    rw [List.getLast?_append] at last
    cases rest : v.toList with
    | nil =>
      rw [rest] at last
      cases last
      decide
    | cons d more =>
      rw [rest, List.getLast?_cons_cons] at last
      apply h.trimmed'.2
      rw [rest]
      simpa using last

/-- **The filter of a binding** is that binding. -/
theorem splitTag_binding {k v : String} (h : Binding k v) : splitTag (k ++ "=" ++ v) = (k, v) := by
  have text : trimSpace (k ++ "=" ++ v) = k ++ "=" ++ v := h.trimmed_text.trimSpace_eq
  have nonempty : k ++ "=" ++ v ≠ "" := by
    intro none
    have chars := congrArg String.toList none
    simp at chars
  rw [splitTag, text, if_neg nonempty, cut_append h.plain]
  simp only [Option.getD_some, h.trimmed.trimSpace_eq, h.trimmed'.trimSpace_eq]

/-! ## Maps -/

theorem lookup_filter_ne {tags : Tags} {k key : String} (ne : key ≠ k) :
    (tags.filter fun t => t.1 ≠ k).lookup key = tags.lookup key := by
  induction tags with
  | nil => rfl
  | cons t rest ih =>
    by_cases same : t.1 = k
    · have other : (key == t.1) = false := beq_false_of_ne (same ▸ ne)
      rw [List.filter_cons_of_neg (by simpa using same), ih, List.lookup_cons, other]
    · rw [List.filter_cons_of_pos (by simpa using same), List.lookup_cons, List.lookup_cons, ih]

theorem lookup_filter_self (tags : Tags) (k : String) :
    (tags.filter fun t => t.1 ≠ k).lookup k = none := by
  apply List.lookup_eq_none_iff.mpr
  intro t mem
  have other := of_decide_eq_true (List.mem_filter.mp mem).2
  exact bne_iff_ne.mpr (Ne.symm other)

theorem lookup_assign (tags : Tags) (k v key : String) :
    (assign tags k v).lookup key = if key = k then some v else tags.lookup key := by
  rw [assign, List.lookup_append]
  split
  · next same =>
    subst same
    rw [lookup_filter_self, List.lookup_cons_self]
    rfl
  · next ne =>
    have other : (key == k) = false := beq_false_of_ne ne
    rw [lookup_filter_ne ne, List.lookup_cons, other]
    cases tags.lookup key <;> rfl

theorem lookup_of_mem {tags : Tags} (distinct : (tags.map Prod.fst).Nodup) {k v : String}
    (mem : (k, v) ∈ tags) :
    tags.lookup k = some v := by
  induction tags with
  | nil => cases mem
  | cons t rest ih =>
    obtain ⟨fresh, others⟩ := List.nodup_cons.mp distinct
    rcases List.mem_cons.mp mem with same | older
    · subst same
      exact List.lookup_cons_self
    · have ne : k ≠ t.1 := fun same => fresh (List.mem_map.mpr ⟨(k, v), older, same⟩)
      have other : (k == t.1) = false := beq_false_of_ne ne
      rw [List.lookup_cons, other]
      exact ih others older

/-! ## Items -/

/-- An item that needs no trimming and no further cutting. -/
structure Item (t : String × String) : Prop where
  key : t.1 ≠ ""
  plain : ',' ∉ t.1.toList ∧ '=' ∉ t.1.toList
  value : ',' ∉ t.2.toList
  trimmed : trimSpace t.1 = t.1 ∧ trimSpace t.2 = t.2

/-- The text of an item. -/
def itemText (t : String × String) : String := t.1 ++ "=" ++ t.2

theorem Item.not_mem {t : String × String} (h : Item t) : ',' ∉ (itemText t).toList := by
  simp [itemText, h.plain.1, h.value]

/-- A text of spaces has no items. -/
theorem parsePairs_blank {raw : String} (blank : trimSpace raw = "") :
    parsePairs [] (split raw ',') = [] := by
  have spaces : ∀ c ∈ raw.toList, isSpace c = true := by
    have none := congrArg String.toList blank
    rw [toList_trimSpace] at none
    have rest := List.rdropWhile_eq_nil_iff.mp none
    have left : raw.toList.dropWhile isSpace = [] := by
      cases kept : raw.toList.dropWhile isSpace with
      | nil => rfl
      | cons c more =>
        have first := List.head?_dropWhile_not isSpace raw.toList
        rw [kept] at first
        rw [kept] at rest
        exact absurd (rest c List.mem_cons_self) (by simpa using first)
    exact List.dropWhile_eq_nil_iff.mp left
  have comma : ',' ∉ raw.toList := fun mem => absurd (spaces _ mem) (by decide)
  have equals : '=' ∉ raw.toList := fun mem => absurd (spaces _ mem) (by decide)
  rw [split, pieces_of_not_mem comma, List.map_singleton, String.ofList_toList, parsePairs, cut,
    if_neg equals]
  rfl

theorem parseTags_eq (raw : String) : parseTags raw = parsePairs [] (split raw ',') := by
  unfold parseTags
  split
  · next blank => exact (parsePairs_blank blank).symm
  · rfl

theorem split_items {items : List (String × String)} (ne : items ≠ []) (all : ∀ t ∈ items, Item t) :
    split (",".intercalate (items.map itemText)) ',' = items.map itemText := by
  have parts : ∀ items : List (String × String), items ≠ [] → (∀ t ∈ items, Item t) →
      pieces ',' (",".intercalate (items.map itemText)).toList = items.map fun t =>
        (itemText t).toList := by
    intro items
    induction items with
    | nil => exact fun none => absurd rfl none
    | cons t rest ih =>
      intro _ all
      have plain := (all t List.mem_cons_self).not_mem
      cases rest with
      | nil =>
        rw [List.map_singleton, String.intercalate_singleton, pieces_of_not_mem plain]
        rfl
      | cons u more =>
        have later := ih (List.cons_ne_nil _ _) fun x mem => all x (List.mem_cons_of_mem _ mem)
        have chars : (",".intercalate ((t :: u :: more).map itemText)).toList =
            (itemText t).toList ++ ',' :: (",".intercalate ((u :: more).map itemText)).toList := by
          rw [List.map_cons, List.map_cons, String.intercalate_cons_cons]
          simp
        rw [chars, pieces_append, pieces_of_not_mem plain, later]
        rfl
  rw [split, parts items ne all, List.map_map]
  exact List.map_congr_left fun t _ => String.ofList_toList

theorem parsePairs_items {items : List (String × String)} (all : ∀ t ∈ items, Item t)
    (tags : Tags) :
    parsePairs tags (items.map itemText) = items.foldl
      (fun tags t => assign tags t.1 t.2) tags := by
  induction items generalizing tags with
  | nil => rfl
  | cons t rest ih =>
    have item := all t List.mem_cons_self
    have later := fun x mem => all x (List.mem_cons_of_mem t mem)
    simp only [List.map_cons, parsePairs, itemText, cut_append item.plain.2, item.trimmed.1,
      item.trimmed.2]
    rw [if_pos item.key]
    exact ih later _

theorem lookup_foldl_assign (items : List (String × String)) (tags : Tags) (key : String) :
    (items.foldl (fun tags t => assign tags t.1 t.2) tags).lookup key =
      (items.reverse.lookup key).or (tags.lookup key) := by
  induction items generalizing tags with
  | nil => rfl
  | cons t rest ih =>
    rw [List.foldl_cons, ih, lookup_assign, List.reverse_cons, List.lookup_append, Option.or_assoc]
    congr 1
    by_cases same : key = t.1
    · rw [if_pos same, same, List.lookup_cons_self]
      rfl
    · have other : (key == t.1) = false := beq_false_of_ne same
      rw [if_neg same, List.lookup_cons, other]
      rfl

/-- **The last item of a key** is its value. -/
theorem parseTags_items {items : List (String × String)} (all : ∀ t ∈ items, Item t)
    (key : String) :
    (parseTags (",".intercalate (items.map itemText))).lookup key = items.reverse.lookup key := by
  cases items with
  | nil => rfl
  | cons t rest =>
    rw [parseTags_eq, split_items (List.cons_ne_nil _ _) all, parsePairs_items all,
      lookup_foldl_assign]
    exact Option.or_none

/-! ## What is listed -/

/-- Every call succeeds. -/
def Succeeds (cs : List Choice) : Prop := ∀ c ∈ cs, c.fate = .ok

/-- The tags contain the key of a filter, with its value if it has one. -/
def Contains (tags : Tags) (filter : String × String) : Prop :=
  ∃ v, tags.lookup filter.1 = some v ∧ (filter.2 ≠ "" → v = filter.2)

theorem tagged_iff {tags : Tags} {filter : String × String} :
    Blobstore.tagged tags filter.1 filter.2 = true ↔ Contains tags filter := by
  unfold Blobstore.tagged Contains
  cases tags.lookup filter.1 with
  | none => simp
  | some v =>
    simp only [Bool.or_eq_true, decide_eq_true_eq, Option.some_inj, exists_eq_left']
    exact ⟨fun h ne => h.resolve_left ne, fun h => or_iff_not_imp_left.mpr h⟩

/-- The versions that are current are the latest ones. -/
theorem mem_current {versions : List Version} {v : Version} :
    v ∈ Upsert.table Version.key versions ↔ latest versions v.key = some v := by
  induction versions with
  | nil => exact iff_of_false List.not_mem_nil fun same => Option.some_ne_none _ same.symm
  | cons r rest ih =>
    rw [Upsert.table, Upsert.mem_put, latest]
    by_cases same : r.key = v.key
    · rw [List.find?_cons_of_pos (by simpa using same), Option.some_inj]
      constructor
      · rintro (rfl | ⟨_, ne⟩)
        · rfl
        · exact absurd same.symm ne
      · exact fun eq => .inl eq.symm
    · rw [List.find?_cons_of_neg (by simpa using same)]
      constructor
      · rintro (rfl | ⟨older, _⟩)
        · exact absurd rfl same
        · exact ih.mp older
      · exact fun found => .inr ⟨ih.mpr found, Ne.symm same⟩

/-- What `List` makes of the objects that the client lists. -/
def listed (s : Env) : List Blobstore.Object :=
  (listing s.versions "" false).map fun info =>
    ⟨info.key, info.size, info.etag, info.versionID, "", info.lastModified, [], false, 0⟩

theorem listed_keys (s : Env) :
    List.Perm ((listed s).map Blobstore.Object.key)
      ((Upsert.table Version.key s.versions).map Version.key) := by
  have everything : (Upsert.table Version.key s.versions).filter
      (fun v => "".toList.isPrefixOf v.key.toList) = Upsert.table Version.key s.versions :=
    List.filter_eq_self.mpr fun _ _ => rfl
  rw [listed, listing, if_neg Bool.false_ne_true, everything, List.map_map, List.map_map]
  exact (List.mergeSort_perm _ _).map _

/-- The objects that are listed are those that there are, each one once. -/
theorem mem_listed {s : Env} {key : String} :
    (∃ o ∈ listed s, o.key = key) ↔ ∃ v, latest s.versions key = some v := by
  rw [← List.mem_map, (listed_keys s).mem_iff, List.mem_map]
  constructor
  · rintro ⟨v, mem, rfl⟩
    exact ⟨v, mem_current.mp mem⟩
  · rintro ⟨v, found⟩
    have same : v.key = key := by simpa using List.find?_some found
    exact ⟨v, mem_current.mpr (same ▸ found), same⟩

/-- The objects with a tag, each with its tags. -/
def matching (s : Env) (filter : String × String) (objects : List Blobstore.Object) :
    List Blobstore.Object :=
  objects.filterMap fun o => (latest s.versions o.key).bind fun v =>
    if Blobstore.tagged v.tags filter.1 filter.2 then some { o with tags := v.tags } else none

theorem matching_cons {s : Env} (filter : String × String) {o : Blobstore.Object} {v : Version}
    (found : latest s.versions o.key = some v) (rest : List Blobstore.Object) :
    matching s filter (o :: rest) =
      if Blobstore.tagged v.tags filter.1 filter.2 then { o with tags := v.tags } ::
        matching s filter rest
      else matching s filter rest := by
  rw [matching, List.filterMap_cons, found, Option.bind_some]
  by_cases has : Blobstore.tagged v.tags filter.1 filter.2 = true
  · rw [if_pos has, if_pos has]
    rfl
  · rw [if_neg has, if_neg has]
    rfl

theorem mem_matching {s : Env} {filter : String × String} {key : String} :
    (∃ o ∈ matching s filter (listed s), o.key = key) ↔
      ∃ v, latest s.versions key = some v ∧ Contains v.tags filter := by
  constructor
  · rintro ⟨o, mem, rfl⟩
    obtain ⟨old, _, made⟩ := List.mem_filterMap.mp mem
    obtain ⟨v, found, picked⟩ := Option.bind_eq_some_iff.mp made
    obtain ⟨has, same⟩ := Option.ite_none_right_eq_some.mp picked
    cases same
    exact ⟨v, found, tagged_iff.mp has⟩
  · rintro ⟨v, found, has⟩
    obtain ⟨old, mem, rfl⟩ := mem_listed.mpr ⟨v, found⟩
    refine ⟨{ old with tags := v.tags }, List.mem_filterMap.mpr ⟨old, mem, ?_⟩, rfl⟩
    rw [found, Option.bind_some, if_pos (tagged_iff.mpr has)]

/-- An object that is found has its current tags. -/
theorem matching_tags {s : Env} {filter : String × String} {objects : List Blobstore.Object}
    {o : Blobstore.Object} (mem : o ∈ matching s filter objects) :
    ∃ v, latest s.versions o.key = some v ∧ v.tags = o.tags := by
  obtain ⟨old, _, made⟩ := List.mem_filterMap.mp mem
  obtain ⟨v, found, picked⟩ := Option.bind_eq_some_iff.mp made
  obtain ⟨_, same⟩ := Option.ite_none_right_eq_some.mp picked
  cases same
  exact ⟨v, found, rfl⟩

theorem matching_nodup (s : Env) (filter : String × String) :
    ((matching s filter (listed s)).map Blobstore.Object.key).Nodup := by
  have distinct : ((listed s).map Blobstore.Object.key).Nodup :=
    (listed_keys s).nodup_iff.mpr (Upsert.nodup_table _ _)
  have part : ∀ objects : List Blobstore.Object,
      List.Sublist ((matching s filter objects).map Blobstore.Object.key)
        (objects.map Blobstore.Object.key) := by
    intro objects
    induction objects with
    | nil => exact .slnil
    | cons o rest ih =>
      rw [matching, List.filterMap_cons]
      split
      · exact ih.cons _
      · next made =>
        obtain ⟨v, _, picked⟩ := Option.bind_eq_some_iff.mp made
        obtain ⟨_, same⟩ := Option.ite_none_right_eq_some.mp picked
        cases same
        exact ih.cons_cons _
  exact distinct.sublist (part _)

/-! ## Runs -/

section

variable {s : Env} {c : Choice} (ok : c.fate = .ok)
include ok

theorem respond_tagging {key : String} {v : Version} (found : latest s.versions key = some v) :
    respond s (.s3 (.getObjectTagging key "")) c = some (.ok v.tags, s) := by
  simp only [respond, respondS3, ok, select, if_true, found]
  rfl

theorem respond_list (lead : String) : respond s (.s3 (.listObjects lead false)) c =
    some (.ok (listing s.versions lead false), s) := by
  simp only [respond, respondS3, ok]
  rfl

/-- One turn of the loop. -/
theorem findLoop_turn {o : Blobstore.Object} {v : Version}
    (found : latest s.versions o.key = some v) (key value : String)
    (sofar rest : List Blobstore.Object) (cs : List Choice) :
    (s3 (Blobstore.findLoop key value sofar (o :: rest))).after respond s (c :: cs) =
      (s3 (Blobstore.findLoop key value
        (if Blobstore.tagged v.tags key value then sofar ++ [{ o with tags := v.tags }] else sofar)
          rest)).after respond s cs := by
  rw [Blobstore.findLoop]
  refine (Prog.after_answered (respond_tagging ok found) _ cs).trans ?_
  change (s3 (if Blobstore.tagged v.tags key value then
    Blobstore.findLoop key value (sofar ++ [{ o with tags := v.tags }]) rest
    else Blobstore.findLoop key value sofar rest)).after respond s cs = _
  split <;> rfl

end

theorem findLoop_after {s : Env} (filter : String × String) {objects : List Blobstore.Object}
    {cs : List Choice} (ok : Succeeds cs) (each : cs.length = objects.length)
    (sofar : List Blobstore.Object)
    (stored : ∀ o ∈ objects, ∃ v, latest s.versions o.key = some v) :
    (s3 (Blobstore.findLoop filter.1 filter.2 sofar objects)).after respond s cs =
      some (.ret (sofar ++ matching s filter objects), s) := by
  induction objects generalizing sofar cs with
  | nil =>
    cases List.length_eq_zero_iff.mp each
    exact congrArg (fun l => some (Prog.ret l, s)) (List.append_nil sofar).symm
  | cons o rest ih =>
    obtain ⟨c, more, rfl⟩ := List.exists_cons_of_length_eq_add_one each
    obtain ⟨v, found⟩ := stored o List.mem_cons_self
    have ok' : Succeeds more := fun c mem => ok c (List.mem_cons_of_mem _ mem)
    have each' : more.length = rest.length := Nat.succ.inj each
    have stored' := fun o mem => stored o (List.mem_cons_of_mem _ mem)
    rw [findLoop_turn (ok c List.mem_cons_self) found, ih ok' each' _ stored',
      matching_cons filter found]
    split
    · rw [List.append_assoc]
      rfl
    · rfl

/-- `FindByTag` of all objects, when every call succeeds. -/
theorem findByTag_after {s : Env} (filter : String × String) {c : Choice} {cs : List Choice}
    (ok : Succeeds (c :: cs)) (each : cs.length = (listed s).length) :
    (s3 (Blobstore.findByTag filter.1 filter.2 "")).after respond s (c :: cs) =
      some (.ret (.ok (matching s filter (listed s))), s) := by
  have ok' : Succeeds cs := fun c mem => ok c (List.mem_cons_of_mem _ mem)
  have stored : ∀ o ∈ listed s, ∃ v, latest s.versions o.key = some v := fun o mem =>
    mem_listed.mp ⟨o, mem, rfl⟩
  rw [Blobstore.findByTag, Blobstore.list]
  refine (Prog.after_answered (respond_list (ok c List.mem_cons_self) "") _ cs).trans ?_
  have loops := Prog.after_bind (findLoop_after filter ok' each [] stored)
    fun found => (.ret (.ok found) : Handler (Except Blobstore.Err (List Blobstore.Object)))
  have whole : s3 (Blobstore.findLoop filter.1 filter.2 [] (listed s) >>=
      fun found =>
        (.ret (.ok found) : Blobstore.Code (Except Blobstore.Err (List Blobstore.Object)))) =
      s3 (Blobstore.findLoop filter.1 filter.2 [] (listed s)) >>= fun found => .ret (.ok found) :=
        Prog.lift_bind _ _ _ _
  exact (congrArg (fun x => x.after respond s cs) whole).trans loops

/-- A request for the files in S3 with a tag. -/
structure Filters (q : Params) (filter : String) : Prop where
  source : q.query "source" = "s3"
  lead : q.query "prefix" = ""
  tag : q.query "tag" = filter

/-- When every call succeeds, the request is answered with objects of which `P` holds. -/
def Lists (cfg : Config) (s : Env) (q : Params) (P : List Blobstore.Object → Prop) : Prop :=
  ∃ calls, ∀ cs, Succeeds cs → cs.length = calls → ∃ objects elapsed,
    (listFiles cfg q).after respond s cs = some
      (.ret (writeJSON 200 (.s3Files cfg.bucket objects elapsed)), s) ∧ P objects

theorem respond_now (s : Env) (c : Choice) : respond s .now c = some (s.clock, s) := rfl

theorem listS3_after {cfg : Config} (blobs : cfg.blobs = true) {s : Env} {q : Params}
    (lead : q.query "prefix" = "") {filter : String × String} (keyed : filter.1 ≠ "") {c d : Choice}
    {cs : List Choice} (ok : Succeeds (c :: cs)) (each : cs.length = (listed s).length)
    (start : Instant) :
    (listS3 cfg q filter start).after respond s (c :: cs ++ [d]) =
      some (.ret
        (writeJSON 200 (.s3Files cfg.bucket (matching s filter (listed s))
          (Duration.milliseconds (s.clock - start)))), s) := by
  have finds := findByTag_after filter ok each
  simp only [listS3, if_pos blobs, if_pos keyed, lead]
  rw [Prog.after_append, Prog.after_bind finds, Option.bind_some]
  exact Prog.after_answered (respond_now s d) _ []

/-- **A list of files** by a filter has the objects that have the tag now. -/
theorem listFiles_lists {cfg : Config} (blobs : cfg.blobs = true) (s : Env) {q : Params}
    {filter : String} (asked : Filters q filter) (keyed : (splitTag filter).1 ≠ "") :
    Lists cfg s q fun objects => objects = matching s (splitTag filter) (listed s) := by
  refine ⟨(listed s).length + 3, fun cs ok each => ?_⟩
  obtain ⟨first, cs, rfl⟩ := List.exists_cons_of_length_eq_add_one each
  obtain ⟨c, cs, rfl⟩ := List.exists_cons_of_length_eq_add_one (Nat.succ.inj each)
  have last : cs ≠ [] := List.ne_nil_of_length_eq_add_one (Nat.succ.inj (Nat.succ.inj each))
  obtain ⟨turns, d, rfl⟩ := (List.eq_nil_or_concat' cs).resolve_left last
  have each' : turns.length = (listed s).length := by
    simp only [List.length_cons, List.length_append, List.length_nil] at each
    omega
  have ok' : Succeeds (c :: turns) := by
    intro x mem
    apply ok x
    rcases List.mem_cons.mp mem with rfl | mem
    · exact List.mem_cons_of_mem _ List.mem_cons_self
    · exact List.mem_cons_of_mem _ (List.mem_cons_of_mem _ (List.mem_append_left _ mem))
  have runs := listS3_after blobs asked.lead keyed ok' each' s.clock (d := d)
  refine ⟨matching s (splitTag filter) (listed s),
    Duration.milliseconds (s.clock - s.clock), ?_, rfl⟩
  simp only [listFiles, asked.tag, asked.source]
  exact (Prog.after_answered (respond_now s first) _ _).trans runs

theorem Lists.mono {cfg : Config} {s : Env} {q : Params} {P P' : List Blobstore.Object → Prop}
    (h : Lists cfg s q P) (weaker : ∀ objects, P objects → P' objects) : Lists cfg s q P' := by
  obtain ⟨calls, lists⟩ := h
  refine ⟨calls, fun cs ok each => ?_⟩
  obtain ⟨objects, elapsed, runs, holds⟩ := lists cs ok each
  exact ⟨objects, elapsed, runs, weaker objects holds⟩

/-! ## An upload -/

/-- A call that leaves the objects alone. -/
def leaves : Effect → Prop
  | .now => True
  | .indexFile _ => True
  | _ => False

theorem leaves_versions {s t : Env} {e : Effect} {c : Choice} {r : e.Result} (left : leaves e)
    (h : respond s e c = some (r, t)) : t.versions = s.versions := by
  cases e with
  | now =>
    cases h
    rfl
  | indexFile doc =>
    simp only [respond] at h
    split at h <;> cases h <;> rfl
  | _ => exact left.elim

theorem indexFile_leaves (cfg : Config) (doc : Search.FileDoc) :
    (indexFile cfg doc).All leaves := by
  unfold indexFile
  split
  · exact ⟨trivial, fun _ => trivial⟩
  · trivial

/-- The end of an upload. -/
theorem indexed_leaves (cfg : Config) (obj : Blobstore.Object) (tags : Tags) :
    (do
      let t ← now
      indexFile cfg ⟨obj.key, "s3", obj.size, obj.versionID, tags, t⟩
      return writeJSON 201 (.uploadedObject obj) : Handler Reply).All leaves := by
  have asks : now.All leaves := ⟨trivial, fun _ => trivial⟩
  exact Prog.all_bind asks fun _ => Prog.all_bind (indexFile_leaves cfg _) fun _ => trivial

/-- **An upload** that is answered leaves the object with the tags of its text. -/
theorem upload_tags {cfg : Config} (blobs : cfg.blobs = true) {r : Params} {name : String}
    {s t : Env} {cs : List Choice} {reply : Reply} (backend : backendParam r = .s3)
    (named : uploadName r = some name) (ok : Succeeds cs)
    (runs : (uploadFile cfg r).after respond s cs = some (.ret reply, t)) :
    ∃ v, latest t.versions name = some v ∧ v.tags = parseTags (r.query "tags") := by
  simp only [uploadFile, named, backend, uploadS3, if_pos blobs, Blobstore.put] at runs
  -- what is parsed does not matter from here on, and would be evaluated where the versions are
  -- unified
  generalize parseTags (r.query "tags") = tags at runs ⊢
  cases cs with
  | nil => cases runs
  | cons c cs =>
    obtain ⟨e, k, answer, u, call, answers, rest⟩ := Prog.after_cons runs
    cases call
    simp only [respond, respondS3, ok c List.mem_cons_self] at answers
    split at answers
    · cases answers
      let v : Version :=
        ⟨name, c.version, (maxBytesReader maxUploadSize ⟨r.request.body, r.complete⟩).bytes,
          contentType r,
        c.etag, tags, s.clock⟩
      have kept : t.versions = upload s.versions v := by
        refine Prog.All.after (P := leaves) (J := fun u => u.versions = upload s.versions v)
          ?_ ?_ rest rfl
        · exact indexed_leaves cfg _ _
        · exact fun _ _ _ _ _ left answers same => (leaves_versions left answers).trans same
      rw [kept]
      exact ⟨v, latest_upload_self _ v, rfl⟩
    · cases answers

/-! ## Tags that are found -/

/-- **Tags are found.** After an upload, each of its bindings is a filter by which the object is
listed, as long as the object stays as it is. A filter with a key lists the objects that have the
tag now, each one once. Of a text of items the last one of each key counts. -/
theorem tags_found {cfg : Config} (blobs : cfg.blobs = true) :
    (∀ r name s cs reply t, backendParam r = .s3 → uploadName r = some name → Succeeds cs →
      (uploadFile cfg r).after respond s cs = some (.ret reply, t) →
      ∀ u, latest u.versions name = latest t.versions name →
      ∀ k v, (k, v) ∈ parseTags (r.query "tags") → ∀ q, Filters q (k ++ "=" ++ v) →
      Lists cfg u q fun objects => ∃ o ∈ objects, o.key = name ∧
      o.tags = parseTags (r.query "tags")) ∧
    (∀ s q filter, Filters q filter → (splitTag filter).1 ≠ "" → Lists cfg s q fun objects =>
      (objects.map Blobstore.Object.key).Nodup ∧ ∀ key, (∃ o ∈ objects, o.key = key) ↔
        ∃ v, latest s.versions key = some v ∧ Contains v.tags (splitTag filter)) ∧
    ∀ items : List (String × String), (∀ t ∈ items, Item t) →
      ((parseTags (",".intercalate (items.map itemText))).map Prod.fst).Nodup ∧
      ∀ key, (parseTags (",".intercalate (items.map itemText))).lookup key =
        items.reverse.lookup key := by
  refine ⟨?_, ?_, ?_⟩
  · intro r name s cs reply t backend named ok runs u same k v mem q asked
    obtain ⟨version, found, tags⟩ := upload_tags blobs backend named ok runs
    have binding := parseTags_binding mem
    have filter := splitTag_binding binding
    have current := same.trans found
    have keyed : (splitTag (k ++ "=" ++ v)).1 ≠ "" := by
      rw [filter]
      exact binding.key
    refine (listFiles_lists blobs u asked keyed).mono fun objects objects_eq => ?_
    have has : Contains version.tags (splitTag (k ++ "=" ++ v)) := by
      rw [filter, tags]
      exact ⟨v, lookup_of_mem (parseTags_nodup _) mem, fun _ => rfl⟩
    obtain ⟨o, inListing, key⟩ := mem_matching.mpr ⟨version, current, has⟩
    obtain ⟨version', found', tags'⟩ := matching_tags inListing
    rw [key, current] at found'
    cases found'
    exact ⟨o, objects_eq ▸ inListing, key, tags'.symm.trans tags⟩
  · intro s q filter asked keyed
    refine (listFiles_lists blobs s asked keyed).mono fun objects objects_eq => ?_
    subst objects_eq
    exact ⟨matching_nodup s _, fun key => mem_matching⟩
  · intro items all
    exact ⟨parseTags_nodup _, parseTags_items all⟩

/-- An upload of a file with two tags: the value of one has an equals sign, the other one has
none. -/
def taggedUpload : Params where
  request := ⟨"POST", "/files", Header.empty, [1], ""⟩
  query name := if name = "name" then "a" else if name = "tags" then " k = x=y ,m=,rest" else ""
  pathValue _ := ""
  contentLength := 1
  complete := true

/-- A request for the files with a tag. -/
def filesWith (filter : String) : Params where
  request := ⟨"GET", "/files", Header.empty, [], ""⟩
  query name := if name = "source" then "s3" else if name = "tag" then filter else ""
  pathValue _ := ""
  contentLength := 0
  complete := true

theorem tags_found_equalsSign : ∃ t reply,
    (uploadFile indexedApp taggedUpload).after respond emptyStores.env
      (List.replicate 3 (okAs "1")) = some (.ret reply, t) ∧
    Lists indexedApp t (filesWith ("k" ++ "=" ++ "x=y")) fun objects => ∃ o ∈ objects, o.key = "a" ∧
      o.tags = [("k", "x=y"), ("m", "")] := by
  have uploaded : ∃ t reply, (uploadFile indexedApp taggedUpload).after respond emptyStores.env
      (List.replicate 3 (okAs "1")) = some (.ret reply, t) := ⟨_, _, rfl⟩
  obtain ⟨t, reply, runs⟩ := uploaded
  have tags : parseTags (taggedUpload.query "tags") = [("k", "x=y"), ("m", "")] := by decide
  have ok : Succeeds (List.replicate 3 (okAs "1")) := fun c mem =>
    List.eq_of_mem_replicate mem ▸ rfl
  have mem : ("k", "x=y") ∈ parseTags (taggedUpload.query "tags") := tags ▸ List.mem_cons_self
  have asked : Filters (filesWith ("k" ++ "=" ++ "x=y")) ("k" ++ "=" ++ "x=y") := ⟨rfl, rfl, rfl⟩
  refine ⟨t, reply, runs, ?_⟩
  rw [← tags]
  have blobs : indexedApp.blobs = true := rfl
  exact (tags_found blobs).1 taggedUpload "a" _ _ reply t rfl rfl ok runs t rfl "k"
    "x=y" mem _ asked

end OtusApp.Files
