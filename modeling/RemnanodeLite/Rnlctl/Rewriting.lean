import RemnanodeLite.Rnlctl.Environment

/-! # What a rewritten configuration file says

The three readers of `node.env` agree on what each line assigns, so that the
rewritten file has the assignments that were asked for and no other change. -/

namespace RemnanodeLite.Rnlctl.Environment
open Rune Runes Config Fallible

/-! ### The parser of the installer -/

section
variable {parsed next : Parsed} {line key value : Runes} {ls : List Runes} {es : List (Runes × Runes)}

theorem parseLine_skipped (h : reading line = .skipped) :
    parseLine parsed line = .ok { parsed with lineNumber := parsed.lineNumber + 1 } := by
  simp only [parseLine]
  rw [if_pos (skip_of_reading h)]

theorem parseLine_assigned (h : reading line = .assigned key value) :
    parseLine parsed line =
      if (parsed.values key).isSome then .error (.errorf "node.env repeats key %s" [key])
      else .ok ⟨parsed.lineNumber + 1,
        Function.update parsed.values key (some (unquoteEnvironment value))⟩ := by
  obtain ⟨hskip, left, right, hcut, hkey, rfl, rfl⟩ := cut_of_reading h
  simp only [parseLine]
  rw [if_neg hskip, hcut]
  dsimp only
  rw [if_neg hkey]

theorem parseLine_malformed (h : reading line = .malformed) : parseLine parsed line ≠ .ok next := by
  intro hok
  unfold reading at h
  split_ifs at h with hskip
  simp only [parseLine] at hok
  rw [if_neg hskip] at hok
  cases hcut : cut (.char '=') (trimStart (ofString "export ") (trimSpace line)) with
  | none => simp [hcut] at hok
  | some parts =>
    simp only [hcut] at h hok
    split_ifs at h with hkey
    rw [if_pos hkey] at hok
    cases hok

/- The keys of a file that is accepted are distinct, and their values are those of its lines. -/
theorem parse_fold_ok (hfold : ls.foldlM parseLine parsed = .ok next)
    (hholds : Holds unquoteEnvironment parsed.values es) (hkeys : (es.map Prod.fst).Nodup) :
    WellRead ls ∧ ((es ++ entries ls).map Prod.fst).Nodup ∧
      Holds unquoteEnvironment next.values (es ++ entries ls) := by
  induction ls generalizing parsed es with
  | nil =>
    cases hfold
    refine ⟨fun line hline => absurd hline List.not_mem_nil, ?_, ?_⟩
    · simpa [entries] using hkeys
    · simpa [entries] using hholds
  | cons line ls ih =>
    rw [List.foldlM_cons] at hfold
    rw [entries_cons]
    obtain ⟨middle, hline, hrest⟩ := bind_ok_iff.mp hfold
    cases hreading : reading line with
    | malformed => exact absurd hline (parseLine_malformed hreading)
    | skipped =>
      rw [parseLine_skipped hreading] at hline
      cases hline
      obtain ⟨hread, hresult⟩ := ih hrest hholds hkeys
      refine ⟨fun other hother => ?_, hresult⟩
      rcases List.mem_cons.mp hother with rfl | hother
      · simp [hreading]
      · exact hread other hother
    | assigned key value =>
      rw [parseLine_assigned hreading] at hline
      split_ifs at hline with hsome
      cases hline
      have hfresh : key ∉ es.map Prod.fst := by
        intro hmem
        obtain ⟨⟨_, raw⟩, hentry, rfl⟩ := List.mem_map.mp hmem
        exact hsome (Option.isSome_iff_exists.mpr ⟨_, (hholds _ _).mpr ⟨raw, hentry, rfl⟩⟩)
      have hkeys' : ((es ++ [(key, value)]).map Prod.fst).Nodup := by
        rw [List.map_append]
        exact hkeys.append (List.nodup_singleton key) (by simpa using hfresh)
      obtain ⟨hread, hresult⟩ := ih hrest (hholds.update hfresh) hkeys'
      refine ⟨fun other hother => ?_, ?_⟩
      · rcases List.mem_cons.mp hother with rfl | hother
        · simp [hreading]
        · exact hread other hother
      · simpa [Reading.entry] using hresult

theorem parse_fold (hread : WellRead ls) (hkeys : ((es ++ entries ls).map Prod.fst).Nodup)
    (hholds : Holds unquoteEnvironment parsed.values es) :
    ∃ next, ls.foldlM parseLine parsed = .ok next := by
  induction ls generalizing parsed es with
  | nil => exact ⟨parsed, rfl⟩
  | cons line ls ih =>
    have hrest : WellRead ls := fun other hother => hread other (List.mem_cons_of_mem _ hother)
    rw [entries_cons] at hkeys
    cases hreading : reading line with
    | malformed => exact absurd hreading (hread line List.mem_cons_self)
    | skipped =>
      rw [List.foldlM_cons, parseLine_skipped hreading]
      simp only [hreading, Reading.entry, Option.toList_none, List.nil_append] at hkeys
      exact ih hrest hkeys hholds
    | assigned key value =>
      simp only [hreading, Reading.entry, Option.toList_some, List.singleton_append] at hkeys
      have hfresh : key ∉ es.map Prod.fst := by
        rw [List.map_append, List.map_cons] at hkeys
        exact fun hmem => (List.nodup_append.mp hkeys).2.2 key hmem key List.mem_cons_self rfl
      rw [List.foldlM_cons, parseLine_assigned hreading, hholds.eq_none hfresh]
      rw [List.append_cons] at hkeys
      exact ih hrest hkeys (hholds.update hfresh)

theorem entries_map_dropCR (ls : List Runes) : entries (ls.map dropCR) = entries ls := by
  simp [entries, List.filterMap_map]

theorem wellRead_map_dropCR : WellRead (ls.map dropCR) ↔ WellRead ls := by
  simp [WellRead]

/-- The installer accepts a file exactly when its lines fit into the buffer, read well and assign
distinct keys. -/
theorem parseEnvironmentAssignments_ok_iff {data : Runes} {values : Values} :
    parseEnvironmentAssignments data = .ok values ↔
      (∀ line ∈ lines data, size line < maxEnvironmentBytes) ∧ WellRead (lines data) ∧
        ((entries (lines data)).map Prod.fst).Nodup ∧
        Holds unquoteEnvironment values (entries (lines data)) := by
  unfold parseEnvironmentAssignments
  constructor
  · intro h
    cases hscan : scan maxEnvironmentBytes EnvError.tooLong parseLine (lines data)
        ⟨0, fun _ => none⟩ with
    | error e =>
      rw [hscan] at h
      cases h
    | ok next =>
      rw [hscan] at h
      cases h
      obtain ⟨hfit, hfold⟩ := scan_ok_iff.mp hscan
      obtain ⟨hread, hkeys, hholds⟩ := parse_fold_ok hfold holds_nil List.nodup_nil
      rw [List.nil_append, entries_map_dropCR] at hkeys hholds
      exact ⟨hfit, wellRead_map_dropCR.mp hread, hkeys, hholds⟩
  · rintro ⟨hfit, hread, hkeys, hholds⟩
    have hread' := wellRead_map_dropCR.mpr hread
    rw [← entries_map_dropCR] at hkeys
    have hstart : Holds unquoteEnvironment (⟨0, fun _ => none⟩ : Parsed).values [] := holds_nil
    obtain ⟨next, hfold⟩ := parse_fold hread' hkeys hstart
    obtain ⟨-, -, hnext⟩ := parse_fold_ok hfold holds_nil List.nodup_nil
    rw [List.nil_append, entries_map_dropCR] at hnext
    have hvalues : next.values = values := by
      funext key
      refine Option.ext fun value => ?_
      rw [hnext key value, hholds key value]
    rw [scan_ok_iff.mpr ⟨hfit, hfold⟩, ← hvalues]
    rfl

end

/-! ### Requests -/

section
variable {request : ConfigurationUpdateRequest} {key value : Runes}

structure Plain (value : Runes) : Prop where
  chars : ∀ r ∈ value, isChar r = true
  newlines : ¬ ofString "\\n" <:+: value
  spaces : ∀ r ∈ value, isSpace r = false

theorem plain_of_validate (h : validateConfigurationValue key value = .ok ()) : Plain value := by
  simp only [validateConfigurationValue, refuse_ok_iff, not_or, Bool.not_eq_false,
    Bool.not_eq_true, List.all_eq_true, List.any_eq_false] at h
  refine ⟨h.1, h.2.1, fun r hr => ?_⟩
  exact (Bool.or_eq_false_iff.mp (h.2.2 r hr)).1

theorem checkSet_ok {pairs : List (Sigma fun _ : Runes => Runes)} {seen result : List Runes}
    (h : checkSet pairs seen = .ok result) :
    (∀ pair ∈ pairs, pair.1 ∈ editableConfigurationKeys ∧ Plain pair.2) ∧
      ∀ key, key ∈ result ↔ key ∈ seen ∨ key ∈ pairs.map Sigma.fst := by
  induction pairs generalizing seen with
  | nil =>
    cases h
    simp
  | cons pair pairs ih =>
    obtain ⟨key, value⟩ := pair
    simp only [checkSet, bind_ok_iff, refuse_ok_iff, validateEditableConfigurationKey, not_not] at h
    obtain ⟨_, heditable, _, hnew, _, hvalue, hrest⟩ := h
    obtain ⟨hall, hresult⟩ := ih hrest
    refine ⟨List.forall_mem_cons.mpr ⟨⟨heditable, plain_of_validate hvalue⟩, hall⟩, fun other => ?_⟩
    rw [hresult other, List.map_cons, List.mem_cons, List.mem_cons]
    tauto

theorem checkUnset_ok {keys seen : List Runes} (h : checkUnset keys seen = .ok ()) :
    ∀ key ∈ keys, key ∉ seen := by
  induction keys generalizing seen with
  | nil => simp
  | cons key keys ih =>
    simp only [checkUnset, bind_ok_iff, refuse_ok_iff] at h
    obtain ⟨_, _, _, hnew, hrest⟩ := h
    intro other hother
    rcases List.mem_cons.mp hother with rfl | hother
    · exact hnew
    · exact fun hmem => ih hrest other hother (List.mem_cons_of_mem _ hmem)

/-- What `validateConfigurationUpdate` has made sure of. -/
structure Acceptable (request : ConfigurationUpdateRequest) : Prop where
  editable : ∀ key value, request.set.lookup key = some value →
    key ∈ editableConfigurationKeys ∧ Plain value
  disjoint : ∀ key ∈ request.unset, request.set.lookup key = none

theorem acceptable_of_validate (h : validateConfigurationUpdate request = .ok ()) :
    Acceptable request := by
  simp only [validateConfigurationUpdate, bind_ok_iff] at h
  obtain ⟨_, _, seen, hset, hunset⟩ := h
  obtain ⟨hall, hseen⟩ := checkSet_ok hset
  refine ⟨fun key value hlookup => ?_, fun key hkey => ?_⟩
  · have hmem : (⟨key, value⟩ : Sigma fun _ : Runes => Runes) ∈ request.set.entries :=
      AList.mem_lookup_iff.mp hlookup
    exact hall _ hmem
  · refine AList.lookup_eq_none.mpr fun hmem => ?_
    exact checkUnset_ok hunset key hkey ((hseen key).mpr (.inr hmem))

end

/-! ### New lines -/

section
variable {key value : Runes}

theorem editable_plain : ∀ key ∈ editableConfigurationKeys,
    key ≠ [] ∧ (∀ r ∈ key, isSpace r = false) ∧ Rune.char '=' ∉ key ∧ Rune.char '#' ∉ key := by
  decide

theorem spaces_assignment (hkey : key ∈ editableConfigurationKeys) (hvalue : Plain value) :
    ∀ r ∈ assignment key value, isSpace r = false := by
  intro r hr
  simp only [assignment, List.mem_append] at hr
  rcases hr with (hr | hr) | hr
  · exact (editable_plain key hkey).2.1 r hr
  · have hequals : ∀ r ∈ ofString "=", isSpace r = false := by decide
    exact hequals r hr
  · exact hvalue.spaces r hr

/- All readers agree on a line that is written for a key. -/
theorem reading_assignment (hkey : key ∈ editableConfigurationKeys) (hvalue : Plain value) :
    reading (assignment key value) = .assigned key value := by
  obtain ⟨hne, hspaces, hequals, hhash⟩ := editable_plain key hkey
  have hall := spaces_assignment hkey hvalue
  have hnonempty : assignment key value ≠ [] := by simp [assignment, hne]
  have hcomment : ¬ ofString "#" <+: assignment key value := by
    rintro ⟨rest, hrest⟩
    obtain ⟨first, key', rfl⟩ := List.exists_cons_of_ne_nil hne
    have hfirst : Rune.char '#' = first := by
      have hhead := congrArg List.head? hrest
      simpa [assignment, ofString] using hhead
    exact hhash (hfirst ▸ List.mem_cons_self)
  have hexport : ¬ ofString "export " <+: assignment key value := by
    intro hstart
    have hspace : Rune.char ' ' ∈ assignment key value := hstart.subset (by decide)
    exact absurd (hall _ hspace) (by decide)
  have hcut : cut (.char '=') (assignment key value) = some (key, value) := by
    have hshape : assignment key value = key ++ Rune.char '=' :: value := by
      simp [assignment, ofString]
    rw [hshape]
    exact cut_append hequals
  have hskip : ¬ (assignment key value = [] ∨ ofString "#" <+: assignment key value) :=
    not_or.mpr ⟨hnonempty, hcomment⟩
  unfold reading
  rw [trimSpace_eq_self hall, if_neg hskip, trimStart, if_neg hexport, hcut]
  dsimp only
  rw [trimSpace_eq_self hspaces, trimSpace_eq_self hvalue.spaces, if_neg hne]

theorem newline_notMem_assignment (hkey : key ∈ editableConfigurationKeys) (hvalue : Plain value) :
    newline ∉ assignment key value := fun hmem =>
  absurd (spaces_assignment hkey hvalue _ hmem) (by decide)

/- Without an escaped newline the two ways to unquote are one. -/
theorem replaceNewlines_eq_self (h : ¬ ofString "\\n" <:+: value) : replaceNewlines value = value := by
  induction value using replaceNewlines.induct with
  | case1 rest ih => exact absurd ⟨[], rest, rfl⟩ h
  | case2 c rest hother ih =>
    have hrest : ¬ ofString "\\n" <:+: rest := fun hin => h (hin.trans (List.suffix_cons c rest).isInfix)
    rw [replaceNewlines, ih hrest]
    exact hother
  | case3 => rfl

theorem unquote_eq (hvalue : Plain value) : unquote value = unquoteEnvironment value := by
  unfold unquote unquoteEnvironment
  by_cases hsize : size value < 2
  · rw [if_pos hsize, if_neg fun hboth => absurd hboth.1 (Nat.not_le.mpr hsize)]
  · have htwo : 2 ≤ size value := Nat.le_of_not_lt hsize
    rw [if_neg hsize]
    by_cases hquoted : quoted '"' value ∨ quoted '\'' value
    · have hinner : ¬ ofString "\\n" <:+: value.tail.dropLast := fun hin =>
        hvalue.newlines (hin.trans
          ((List.dropLast_prefix _).isInfix.trans (List.tail_suffix value).isInfix))
      rw [if_pos hquoted, if_pos ⟨htwo, hquoted⟩, replaceNewlines_eq_self hinner]
    · rw [if_neg hquoted, if_neg fun hboth => hquoted hboth.2, replaceNewlines_eq_self hvalue.newlines]

end

/-! ### The loop over the lines -/

section
variable (request : ConfigurationUpdateRequest)

def rewritten (line : Runes) : Option Runes :=
  match reading line with
  | .assigned key _ =>
    if key ∈ request.unset then none
    else match request.set.lookup key with
      | some value => some (assignment key value)
      | none => some line
  | _ => some line

/- The lines for the keys that the file did not have. -/
def added (seen : List Runes) (keys : List Runes) : List Runes :=
  keys.filterMap fun key => if key ∈ seen then none else (request.set.lookup key).map (assignment key)

variable {request} {line key value : Runes} {ls : List Runes} {r : Rewriting}

theorem rewriteLine_skipped (h : reading line = .skipped) :
    rewriteLine request.set request.unset r line = r.write line := by
  simp only [rewriteLine]
  rw [if_neg fun hnot => not_or.mpr hnot (skip_of_reading h)]

theorem rewriteLine_assigned (h : reading line = .assigned key value) :
    rewriteLine request.set request.unset r line =
      if key ∈ request.unset then r
      else match request.set.lookup key with
        | some new => { r.write (assignment key new) with seen := key :: r.seen }
        | none => r.write line := by
  obtain ⟨hskip, left, right, hcut, hkey, rfl, -⟩ := cut_of_reading h
  have hindex := idxOf_cut (.char '=') (trimStart (ofString "export ") (trimSpace line))
  rw [hcut, Option.map_some, Option.map_eq_some_iff] at hindex
  obtain ⟨index, hindex, htake⟩ := hindex
  dsimp only at htake
  have hpositive : index > 0 := by
    refine Nat.pos_of_ne_zero fun hzero => hkey ?_
    rw [← htake, hzero]
    rfl
  simp only [rewriteLine]
  rw [if_pos (not_or.mp hskip), hindex]
  dsimp only
  rewrite [if_pos hpositive, htake]
  rfl

theorem rewrite_fold (request : ConfigurationUpdateRequest) (r : Rewriting) (hread : WellRead ls) :
    (ls.foldl (rewriteLine request.set request.unset) r).output =
        r.output ++ unlines (ls.filterMap (rewritten request)) ∧
      ∀ key, key ∈ (ls.foldl (rewriteLine request.set request.unset) r).seen ↔
        key ∈ r.seen ∨ key ∈ (entries ls).map Prod.fst ∧ key ∉ request.unset ∧
          (request.set.lookup key).isSome := by
  induction ls generalizing r with
  | nil => simp [entries]
  | cons line ls ih =>
    have hrest : WellRead ls := fun other hother => hread other (List.mem_cons_of_mem _ hother)
    rw [List.foldl_cons, List.filterMap_cons, entries_cons]
    cases hreading : reading line with
    | malformed => exact absurd hreading (hread line List.mem_cons_self)
    | skipped =>
      obtain ⟨houtput, hseen⟩ := ih (r.write line) hrest
      rw [rewriteLine_skipped hreading, houtput]
      refine ⟨?_, fun key => ?_⟩
      · simp [rewritten, hreading, Rewriting.write]
      · rw [hseen key]
        simp [Rewriting.write, Reading.entry]
    | assigned key value =>
      rw [rewriteLine_assigned hreading]
      by_cases hunset : key ∈ request.unset
      · rw [if_pos hunset]
        obtain ⟨houtput, hseen⟩ := ih r hrest
        refine ⟨?_, fun other => ?_⟩
        · rw [houtput]
          simp [rewritten, hreading, hunset]
        · rw [hseen other]
          by_cases hother : other = key
          · subst hother
            simp [hunset]
          · simp [Reading.entry, hother]
      · rw [if_neg hunset]
        cases hset : request.set.lookup key with
        | none =>
          obtain ⟨houtput, hseen⟩ := ih (r.write line) hrest
          refine ⟨?_, fun other => ?_⟩
          · rw [houtput]
            simp [rewritten, hreading, hunset, hset, Rewriting.write]
          · rw [hseen other]
            by_cases hother : other = key
            · subst hother
              simp [hset, Rewriting.write]
            · simp [Reading.entry, hother, Rewriting.write]
        | some new =>
          obtain ⟨houtput, hseen⟩ := ih
            { r.write (assignment key new) with seen := key :: r.seen } hrest
          refine ⟨?_, fun other => ?_⟩
          · rw [houtput]
            simp [rewritten, hreading, hunset, hset, Rewriting.write]
          · rw [hseen other]
            by_cases hother : other = key
            · subst hother
              simp [hset, hunset, Reading.entry]
            · simp [Reading.entry, hother]

theorem appendKeys_output (keys : List Runes) (r : Rewriting) :
    (appendKeys request.set keys r).output = r.output ++ unlines (added request r.seen keys) := by
  induction keys generalizing r with
  | nil => simp [appendKeys, added]
  | cons key keys ih =>
    rw [appendKeys]
    cases hset : request.set.lookup key with
    | none =>
      have hadded : added request r.seen (key :: keys) = added request r.seen keys := by
        simp [added, hset]
      rw [hadded]
      exact ih r
    | some value =>
      by_cases hseen : key ∈ r.seen
      · have hadded : added request r.seen (key :: keys) = added request r.seen keys := by
          simp [added, hseen]
        dsimp only
        rw [if_pos hseen, hadded]
        exact ih r
      · have hadded : added request r.seen (key :: keys) =
            assignment key value :: added request r.seen keys := by
          simp [added, hseen, hset]
        dsimp only
        rw [if_neg hseen, hadded, ih]
        simp [Rewriting.write]

end

/-! ### The rewritten file -/

section
variable {request : ConfigurationUpdateRequest} {line key value : Runes} {ls seen keys : List Runes}

def changed (request : ConfigurationUpdateRequest) (entry : Runes × Runes) : Option (Runes × Runes) :=
  if entry.1 ∈ request.unset then none else some (entry.1, (request.set.lookup entry.1).getD entry.2)

theorem entry_rewritten (hrequest : Acceptable request) (line : Runes) :
    (rewritten request line).bind (fun new => (reading new).entry) =
      (reading line).entry.bind (changed request) := by
  cases hreading : reading line with
  | skipped | malformed => simp [rewritten, hreading, Reading.entry]
  | assigned key value =>
    by_cases hunset : key ∈ request.unset
    · simp [rewritten, hreading, Reading.entry, changed, hunset]
    · cases hset : request.set.lookup key with
      | none => simp [rewritten, hreading, Reading.entry, changed, hunset, hset]
      | some new =>
        obtain ⟨hkey, hplain⟩ := hrequest.editable key new hset
        simp [rewritten, hreading, Reading.entry, changed, hunset, hset, reading_assignment hkey hplain]

theorem entries_rewritten (hrequest : Acceptable request) (ls : List Runes) :
    entries (ls.filterMap (rewritten request)) = (entries ls).filterMap (changed request) := by
  unfold entries
  rw [List.filterMap_filterMap, List.filterMap_filterMap]
  exact List.filterMap_congr fun line _ => entry_rewritten hrequest line

theorem entries_added (hrequest : Acceptable request) (seen keys : List Runes) :
    entries (added request seen keys) =
      keys.filterMap fun key => if key ∈ seen then none else (request.set.lookup key).map (key, ·) := by
  unfold entries added
  rw [List.filterMap_filterMap]
  refine List.filterMap_congr fun key _ => ?_
  by_cases hseen : key ∈ seen
  · simp [hseen]
  · cases hset : request.set.lookup key with
    | none => simp [hseen]
    | some new =>
      obtain ⟨hkey, hplain⟩ := hrequest.editable key new hset
      simp [hseen, reading_assignment hkey hplain, Reading.entry]

def newLines (request : ConfigurationUpdateRequest) (ls seen : List Runes) : List Runes :=
  ls.filterMap (rewritten request) ++ added request seen editableConfigurationKeys

theorem sublist_changed (es : List (Runes × Runes)) :
    ((es.filterMap (changed request)).map Prod.fst).Sublist (es.map Prod.fst) := by
  induction es with
  | nil => exact .slnil
  | cons entry es ih =>
    rw [List.filterMap_cons, List.map_cons]
    by_cases hunset : entry.1 ∈ request.unset
    · simpa [changed, hunset] using ih.cons entry.1
    · simpa [changed, hunset] using ih.cons_cons entry.1

theorem sublist_added (hrequest : Acceptable request) (seen keys : List Runes) :
    ((entries (added request seen keys)).map Prod.fst).Sublist keys := by
  rw [entries_added hrequest]
  induction keys with
  | nil => exact .slnil
  | cons key keys ih =>
    rw [List.filterMap_cons]
    by_cases hseen : key ∈ seen
    · simpa [hseen] using ih.cons key
    · cases hset : request.set.lookup key with
      | none => simpa [hseen, hset] using ih.cons key
      | some new => simpa [hseen, hset] using ih.cons_cons key

theorem mem_changed {es : List (Runes × Runes)} :
    (key, value) ∈ es.filterMap (changed request) ↔ key ∉ request.unset ∧
      ∃ raw, (key, raw) ∈ es ∧ (request.set.lookup key).getD raw = value := by
  rw [List.mem_filterMap]
  constructor
  · rintro ⟨⟨other, raw⟩, hmem, hentry⟩
    unfold changed at hentry
    split_ifs at hentry with hunset
    cases hentry
    exact ⟨hunset, raw, hmem, rfl⟩
  · rintro ⟨hunset, raw, hmem, hvalue⟩
    refine ⟨(key, raw), hmem, ?_⟩
    unfold changed
    rw [if_neg hunset, hvalue]

theorem mem_added (hrequest : Acceptable request) :
    (key, value) ∈ entries (added request seen keys) ↔
      key ∈ keys ∧ key ∉ seen ∧ request.set.lookup key = some value := by
  rw [entries_added hrequest, List.mem_filterMap]
  constructor
  · rintro ⟨other, hmem, hentry⟩
    split_ifs at hentry with hseen
    obtain ⟨new, hset, heq⟩ := Option.map_eq_some_iff.mp hentry
    cases heq
    exact ⟨hmem, hseen, hset⟩
  · rintro ⟨hmem, hseen, hset⟩
    exact ⟨key, hmem, by simp [hseen, hset]⟩

def Seen (request : ConfigurationUpdateRequest) (ls seen : List Runes) : Prop :=
  ∀ key, key ∈ seen ↔ key ∈ (entries ls).map Prod.fst ∧ key ∉ request.unset ∧
    (request.set.lookup key).isSome

theorem nodup_rewritten (hrequest : Acceptable request) (hseen : Seen request ls seen)
    (hkeys : ((entries ls).map Prod.fst).Nodup) :
    ((entries (newLines request ls seen)).map Prod.fst).Nodup := by
  rw [newLines, entries_append, List.map_append, entries_rewritten hrequest]
  have hold : (((entries ls).filterMap (changed request)).map Prod.fst).Nodup :=
    hkeys.sublist (sublist_changed (entries ls))
  have hnew : ((entries (added request seen editableConfigurationKeys)).map Prod.fst).Nodup :=
    List.Nodup.sublist (sublist_added hrequest seen editableConfigurationKeys) (by decide)
  refine hold.append hnew fun key hfirst hsecond => ?_
  obtain ⟨⟨_, raw⟩, hraw, rfl⟩ := List.mem_map.mp hfirst
  obtain ⟨⟨key, value⟩, hvalue, heq⟩ := List.mem_map.mp hsecond
  cases heq
  obtain ⟨hunset, old, hmem, -⟩ := mem_changed.mp hraw
  obtain ⟨-, hfresh, hset⟩ := (mem_added hrequest).mp hvalue
  exact hfresh ((hseen _).mpr ⟨List.mem_map_of_mem hmem, hunset, by simp [hset]⟩)

theorem mem_entries_rewritten (hrequest : Acceptable request) (hseen : Seen request ls seen) :
    (key, value) ∈ entries (newLines request ls seen) ↔
      request.set.lookup key = some value ∨
        request.set.lookup key = none ∧ key ∉ request.unset ∧ (key, value) ∈ entries ls := by
  rw [newLines, entries_append, List.mem_append, entries_rewritten hrequest, mem_changed,
    mem_added hrequest]
  constructor
  · rintro (⟨hunset, raw, hmem, hvalue⟩ | ⟨-, -, hset⟩)
    · cases hset : request.set.lookup key with
      | none =>
        rw [hset, Option.getD_none] at hvalue
        exact .inr ⟨rfl, hunset, hvalue ▸ hmem⟩
      | some new =>
        rw [hset, Option.getD_some] at hvalue
        exact .inl (congrArg some hvalue)
    · exact .inl hset
  · rintro (hset | ⟨hset, hunset, hmem⟩)
    · have hunset : key ∉ request.unset := fun hmem => by
        rw [hrequest.disjoint key hmem] at hset
        cases hset
      by_cases hpresent : key ∈ (entries ls).map Prod.fst
      · obtain ⟨⟨_, raw⟩, hmem, rfl⟩ := List.mem_map.mp hpresent
        exact .inl ⟨hunset, raw, hmem, by rw [hset, Option.getD_some]⟩
      · refine .inr ⟨(hrequest.editable key value hset).1, fun hmem => ?_, hset⟩
        exact hpresent ((hseen key).mp hmem).1
    · exact .inl ⟨hunset, value, hmem, by rw [hset, Option.getD_none]⟩

theorem mem_rewritten (hline : line ∈ newLines request ls seen) :
    line ∈ ls ∨ ∃ key value, request.set.lookup key = some value ∧ line = assignment key value := by
  rcases List.mem_append.mp hline with hold | hnew
  · obtain ⟨old, hmem, heq⟩ := List.mem_filterMap.mp hold
    unfold rewritten at heq
    split at heq
    next key raw hreading =>
      split_ifs at heq
      split at heq
      next value hset => exact .inr ⟨key, value, hset, (Option.some.inj heq).symm⟩
      next => exact .inl (Option.some.inj heq ▸ hmem)
    next => exact .inl (Option.some.inj heq ▸ hmem)
  · obtain ⟨key, -, heq⟩ := List.mem_filterMap.mp hnew
    split_ifs at heq
    obtain ⟨value, hset, heq⟩ := Option.map_eq_some_iff.mp heq
    exact .inr ⟨key, value, hset, heq.symm⟩

def scanned (input : Runes) : List Runes := (lines input).map dropCR

theorem foldlM_ok {σ α ε : Type} (f : σ → α → σ) (as : List α) (s : σ) :
    as.foldlM (fun s a => (.ok (f s a) : Except ε σ)) s = .ok (as.foldl f s) := by
  induction as generalizing s with
  | nil => rfl
  | cons a as ih => exact ih (f s a)

/-- A file that parses is rewritten line by line. -/
theorem rewriteEditableConfiguration_ok (request : ConfigurationUpdateRequest) {input : Runes} {values : Values}
    (hparse : parseEnvironmentAssignments input = .ok values) :
    ∃ seen, Seen request (scanned input) seen ∧
      rewriteEditableConfiguration request.set request.unset input =
        .ok (unlines (newLines request (scanned input) seen)) := by
  obtain ⟨hfit, hread, -, -⟩ := parseEnvironmentAssignments_ok_iff.mp hparse
  obtain ⟨houtput, hseen⟩ := rewrite_fold request ⟨[], []⟩ (wellRead_map_dropCR.mpr hread)
  refine ⟨_, fun key => by rw [hseen key]; simp [scanned], ?_⟩
  unfold rewriteEditableConfiguration
  rw [hparse]
  refine bind_ok_iff.mpr ⟨values, rfl, bind_ok_iff.mpr ⟨_, scan_ok_iff.mpr ⟨hfit, foldlM_ok _ _ _⟩, ?_⟩⟩
  rw [appendKeys_output, houtput, newLines, unlines_append]
  rfl

end

section
variable (request : ConfigurationUpdateRequest)

/- A line that a request has nothing to do with. -/
def untouched (line : Runes) : Bool :=
  match reading line with
  | .assigned key _ => key ∉ request.unset && (request.set.lookup key).isNone
  | _ => true

def updated (values : Values) : Values := fun key =>
  if key ∈ request.unset then none
  else match request.set.lookup key with
    | some value => some (unquoteEnvironment value)
    | none => values key

variable {request} {ls seen : List Runes} {line : Runes}

theorem rewritten_untouched (h : untouched request line = true) : rewritten request line = some line := by
  unfold untouched at h
  unfold rewritten
  split at h
  next key value hreading =>
    simp only [Bool.and_eq_true, decide_eq_true_eq, Option.isNone_iff_eq_none] at h
    rw [if_neg h.1, h.2]
  next => rfl

theorem touched_assignment (hrequest : Acceptable request) {key value : Runes}
    (hset : request.set.lookup key = some value) :
    untouched request (assignment key value) = false := by
  obtain ⟨hkey, hplain⟩ := hrequest.editable key value hset
  simp [untouched, reading_assignment hkey hplain, hset]

theorem touched_rewritten (hrequest : Acceptable request) {new : Runes}
    (h : untouched request line = false) (hnew : rewritten request line = some new) :
    untouched request new = false := by
  unfold untouched at h
  unfold rewritten at hnew
  split at h
  next key value hreading =>
    simp only [hreading] at hnew
    split_ifs at hnew with hunset
    cases hset : request.set.lookup key with
    | none => simp [hunset, hset] at h
    | some value =>
      simp only [hset, Option.some.injEq] at hnew
      rw [← hnew]
      exact touched_assignment hrequest hset
  next => cases h

theorem filter_untouched (hrequest : Acceptable request) (ls seen : List Runes) :
    (newLines request ls seen).filter (untouched request) = ls.filter (untouched request) := by
  have hadded : (added request seen editableConfigurationKeys).filter (untouched request) = [] := by
    rw [List.filter_eq_nil_iff]
    intro line hline
    obtain ⟨key, -, heq⟩ := List.mem_filterMap.mp hline
    split_ifs at heq
    obtain ⟨value, hset, rfl⟩ := Option.map_eq_some_iff.mp heq
    simp [touched_assignment hrequest hset]
  rw [newLines, List.filter_append, hadded, List.append_nil]
  induction ls with
  | nil => rfl
  | cons line ls ih =>
    cases huntouched : untouched request line with
    | true => simp [rewritten_untouched huntouched, huntouched, ih]
    | false =>
      cases hnew : rewritten request line with
      | none => simp [hnew, huntouched, ih]
      | some new => simp [hnew, huntouched, touched_rewritten hrequest huntouched hnew, ih]

theorem holds_updated (hrequest : Acceptable request) {values : Values} (hseen : Seen request ls seen)
    (hholds : Holds unquoteEnvironment values (entries ls)) :
    Holds unquoteEnvironment (updated request values)
      (entries (newLines request ls seen)) := by
  intro key value
  simp only [mem_entries_rewritten hrequest hseen, updated]
  by_cases hunset : key ∈ request.unset
  · simp [hunset, hrequest.disjoint key hunset]
  · rw [if_neg hunset]
    cases hset : request.set.lookup key with
    | none => simpa [hunset] using hholds key value
    | some new => simp

theorem newline_notMem_rewritten (hrequest : Acceptable request) {input : Runes}
    (hline : line ∈ newLines request (scanned input) seen) : newline ∉ line := by
  rcases mem_rewritten hline with hold | ⟨key, value, hset, rfl⟩
  · obtain ⟨old, hmem, rfl⟩ := List.mem_map.mp hold
    exact newline_notMem_dropCR (newline_notMem_lines old hmem)
  · obtain ⟨hkey, hplain⟩ := hrequest.editable key value hset
    exact newline_notMem_assignment hkey hplain

theorem wellRead_rewritten (hrequest : Acceptable request) (hread : WellRead ls) :
    WellRead (newLines request ls seen) := by
  intro line hline
  rcases mem_rewritten hline with hold | ⟨key, value, hset, rfl⟩
  · exact hread line hold
  · obtain ⟨hkey, hplain⟩ := hrequest.editable key value hset
    rw [reading_assignment hkey hplain]
    nofun

end

structure WithinDotEnv (data : Runes) : Prop where
  bytes : size data ≤ maxDotEnvBytes
  lines : (Runes.lines data).length ≤ maxDotEnvLines
  assignments : (entries (Runes.lines data)).length ≤ maxDotEnvAssignments

theorem dotEnv_values {data path : Runes} (hwithin : WithinDotEnv data)
    (hfit : ∀ line ∈ lines data, size line < maxDotEnvBytes) (hread : WellRead (lines data))
    (hkeys : ((entries (lines data)).map Prod.fst).Nodup) :
    ∃ values, parseDotEnvData path data = .ok values ∧
      Holds unquote values (entries (lines data)) := by
  have hlines : (0 : ℕ) + ((lines data).map dropCR).length ≤ maxDotEnvLines := by
    simpa using hwithin.lines
  have hroom : (0 : ℕ) + (entries ((lines data).map dropCR)).length ≤ maxDotEnvAssignments := by
    simpa [entries_map_dropCR] using hwithin.assignments
  have hstart : Holds unquote (⟨0, 0, fun _ => none⟩ : DotEnv).values [] := holds_nil
  have hdistinct : (([] ++ entries ((lines data).map dropCR)).map Prod.fst).Nodup := by
    rwa [List.nil_append, entries_map_dropCR]
  obtain ⟨env, hfold, hholds⟩ :=
    dotEnv_fold (wellRead_map_dropCR.mpr hread) hdistinct hstart hlines hroom
  rw [List.nil_append, entries_map_dropCR] at hholds
  refine ⟨env.values, ?_, hholds⟩
  unfold parseDotEnvData
  rw [if_neg (Nat.not_lt.mpr hwithin.bytes), scan_ok_iff.mpr ⟨hfit, hfold⟩]
  rfl

theorem within_of_parseDotEnvData {data path : Runes} {values : Values}
    (h : parseDotEnvData path data = .ok values) : WithinDotEnv data := by
  unfold parseDotEnvData at h
  split_ifs at h with hbytes
  cases hscan : scan maxDotEnvBytes EnvError.tooLong (dotEnvLine path) (lines data)
      ⟨0, 0, fun _ => none⟩ with
  | error e =>
    rw [hscan] at h
    cases h
  | ok env =>
    have hlimits := dotEnv_fold_limits (Nat.zero_le _) (Nat.zero_le _) (scan_ok_iff.mp hscan).2
    simp only [entries_map_dropCR, List.length_map, Nat.zero_add] at hlimits
    exact ⟨Nat.not_lt.mp hbytes, hlimits.1, hlimits.2⟩

/-- A file that the installer reads and a request that it accepts give a file in which the lines
that the request is not about are kept in order. The installer reads it as what was asked for if
the new lines fit into its buffer, and the daemon finds the same values under the keys that were
set if the file is within its limits. -/
theorem rewrite_as_requested (input path : Runes) (values : Values)
    (request : ConfigurationUpdateRequest) (hparse : parseEnvironmentAssignments input = .ok values)
    (hvalid : validateConfigurationUpdate request = .ok ()) :
    ∃ output written, rewriteEditableConfiguration request.set request.unset input = .ok output ∧
      output = unlines written ∧
      written.filter (untouched request) = (scanned input).filter (untouched request) ∧
      ((∀ key value, request.set.lookup key = some value →
          size (assignment key value) < maxEnvironmentBytes) →
        parseEnvironmentAssignments output = .ok (updated request values)) ∧
      (WithinDotEnv output → ∃ daemon, parseDotEnvData path output = .ok daemon ∧
        ∀ key value, request.set.lookup key = some value →
          daemon key = some (unquoteEnvironment value)) := by
  have hrequest := acceptable_of_validate hvalid
  obtain ⟨seen, hseen, hrewrite⟩ := rewriteEditableConfiguration_ok request hparse
  obtain ⟨hfit, hread, hkeys, hholds⟩ := parseEnvironmentAssignments_ok_iff.mp hparse
  rw [← wellRead_map_dropCR] at hread
  rw [← entries_map_dropCR] at hkeys hholds
  have hlines : lines (unlines (newLines request (scanned input) seen)) =
      newLines request (scanned input) seen :=
    lines_unlines fun line hline => newline_notMem_rewritten hrequest hline
  have hread' : WellRead (newLines request (scanned input) seen) := wellRead_rewritten hrequest hread
  have hkeys' := nodup_rewritten hrequest hseen hkeys
  refine ⟨_, _, hrewrite, rfl, filter_untouched hrequest _ _, fun hshort => ?_, fun hwithin => ?_⟩
  · refine parseEnvironmentAssignments_ok_iff.mpr ?_
    rw [hlines]
    refine ⟨fun line hline => ?_, hread', hkeys', holds_updated hrequest hseen hholds⟩
    rcases mem_rewritten hline with hold | ⟨key, value, hset, rfl⟩
    · obtain ⟨old, hmem, rfl⟩ := List.mem_map.mp hold
      exact (size_dropCR_le old).trans_lt (hfit old hmem)
    · exact hshort key value hset
  · have hshort : ∀ line ∈ lines (unlines (newLines request (scanned input) seen)),
        size line < maxDotEnvBytes := by
      rw [hlines]
      exact fun line hline => (size_le_unlines hline).trans hwithin.bytes
    obtain ⟨daemon, hdaemon, hvalues⟩ := dotEnv_values hwithin hshort (by rwa [hlines]) (by rwa [hlines])
    refine ⟨daemon, hdaemon, fun key value hset => ?_⟩
    rw [hlines] at hvalues
    refine (hvalues key _).mpr ⟨value, (mem_entries_rewritten hrequest hseen).mpr (.inl hset), ?_⟩
    exact unquote_eq (hrequest.editable key value hset).2

def portRequest (value : Runes) : ConfigurationUpdateRequest :=
  ⟨AList.singleton (ofString "NODE_PORT") value, []⟩

theorem lookup_portRequest {value key new : Runes} :
    (portRequest value).set.lookup key = some new ↔ key = ofString "NODE_PORT" ∧ new = value := by
  by_cases hkey : key = ofString "NODE_PORT"
  · subst hkey
    simp [portRequest, AList.lookup, eq_comm]
  · simp [portRequest, AList.lookup, hkey]

def sampleInput : Runes := ofString "# ports\n export NODE_PORT = 1\r\nLOG=a=b"

theorem rewrite_as_requested_port :
    ∃ values output, parseEnvironmentAssignments sampleInput = .ok values ∧
      rewriteEditableConfiguration (portRequest (ofString "'22'")).set [] sampleInput = .ok output ∧
      output = ofString "# ports\nNODE_PORT='22'\nLOG=a=b\n" ∧
      parseEnvironmentAssignments output =
        .ok (updated (portRequest (ofString "'22'")) values) := by
  have hparse : (parseEnvironmentAssignments sampleInput).toOption.isSome = true := by decide +kernel
  cases hvalues : parseEnvironmentAssignments sampleInput with
  | error e =>
    rw [hvalues] at hparse
    cases hparse
  | ok values =>
    have hoption : (rewriteEditableConfiguration (portRequest (ofString "'22'")).set [] sampleInput) =
        .ok (ofString "# ports\nNODE_PORT='22'\nLOG=a=b\n") := by decide +kernel
    obtain ⟨output, written, hrewrite, -, -, hagain, -⟩ := rewrite_as_requested sampleInput []
      values (portRequest (ofString "'22'")) hvalues (by decide +kernel)
    refine ⟨values, output, rfl, hrewrite, Except.ok.inj (hrewrite.symm.trans hoption), hagain ?_⟩
    intro key value hset
    obtain ⟨rfl, rfl⟩ := lookup_portRequest.mp hset
    decide +kernel

theorem lines_portRequest {input value : Runes} {values : Values}
    (hparse : parseEnvironmentAssignments input = .ok values)
    (hvalid : validateConfigurationUpdate (portRequest value) = .ok ())
    (hport : ∀ line ∈ scanned input, untouched (portRequest value) line = true) :
    ∃ output, rewriteEditableConfiguration (portRequest value).set [] input = .ok output ∧
      lines output = scanned input ++ [assignment (ofString "NODE_PORT") value] := by
  obtain ⟨seen, hseen, hrewrite⟩ := rewriteEditableConfiguration_ok (portRequest value) hparse
  have hrequest := acceptable_of_validate hvalid
  have hkept : (scanned input).filterMap (rewritten (portRequest value)) = scanned input := by
    rw [List.filterMap_congr fun line hline => rewritten_untouched (hport line hline),
      List.filterMap_some]
  obtain rfl : seen = [] := by
    refine List.eq_nil_iff_forall_not_mem.mpr fun key hkey => ?_
    obtain ⟨hmem, -, hset⟩ := (hseen key).mp hkey
    obtain ⟨entry, hentry, rfl⟩ := List.mem_map.mp hmem
    obtain ⟨line, hline, hread⟩ := List.mem_filterMap.mp hentry
    have huntouched := hport line hline
    cases hreading : reading line with
    | assigned key value =>
      rw [hreading] at hread
      cases hread
      simp only [untouched, hreading, Bool.and_eq_true, Option.isNone_iff_eq_none] at huntouched
      rw [huntouched.2] at hset
      cases hset
    | skipped | malformed => simp [hreading, Reading.entry] at hread
  refine ⟨_, hrewrite, ?_⟩
  rw [lines_unlines fun line hline => newline_notMem_rewritten hrequest hline, newLines, hkept]
  rfl

/-- A value is not bounded, but the line that it makes has to fit into the buffer of the scanner. -/
theorem long_value_unreadable :
    ¬ ∀ (input : Runes) (values : Values) (request : ConfigurationUpdateRequest),
      parseEnvironmentAssignments input = .ok values → validateConfigurationUpdate request = .ok () →
      ∃ output, rewriteEditableConfiguration request.set request.unset input = .ok output ∧
        parseEnvironmentAssignments output = .ok (updated request values) := by
  intro h
  obtain ⟨long, hlong⟩ : ∃ long : Runes, long = List.replicate (2 ^ 20) (.char 'a') := ⟨_, rfl⟩
  have hletters : ∀ r ∈ long, r = Rune.char 'a' := by
    rw [hlong]
    exact fun r hr => List.eq_of_mem_replicate hr
  have hsize : size long = 2 ^ 20 := by
    rw [hlong, Runes.size, List.map_replicate, List.sum_replicate_nat]
    rfl
  have hvalue : validateConfigurationValue (ofString "NODE_PORT") long = .ok () := by
    rw [validateConfigurationValue, refuse_ok_iff, not_or, not_or]
    refine ⟨?_, ?_, ?_⟩
    · rw [Bool.not_eq_false, List.all_eq_true]
      exact fun r hr => (hletters r hr) ▸ rfl
    · intro hin
      exact absurd (hletters (.char 'n') (hin.subset (by decide))) (by decide)
    · rw [Bool.not_eq_true, List.any_eq_false]
      exact fun r hr => (hletters r hr) ▸ (by decide)
  have hvalid : validateConfigurationUpdate (portRequest long) = .ok () := by
    have hkey : validateEditableConfigurationKey (ofString "NODE_PORT") = .ok () := by decide
    simp [validateConfigurationUpdate, portRequest, checkSet, checkUnset, hkey,
      hvalue, refuse, bind, Except.bind]
  have hparse : parseEnvironmentAssignments [] = .ok fun _ => none := rfl
  obtain ⟨output, hrewrite, hagain⟩ := h [] _ (portRequest long) hparse hvalid
  obtain ⟨output', hrewrite', hlines⟩ := lines_portRequest hparse hvalid (by simp [scanned, Runes.lines])
  obtain rfl := Except.ok.inj (hrewrite.symm.trans hrewrite')
  have hfit := (parseEnvironmentAssignments_ok_iff.mp hagain).1
    (assignment (ofString "NODE_PORT") long) (by simp [hlines])
  rw [assignment, size_append, hsize] at hfit
  exact absurd hfit (by simp [maxEnvironmentBytes])

def portTo22 : ConfigurationUpdateRequest := portRequest (ofString "22")

theorem full_unreadable {input : Runes} {values : Values}
    (hport : ∀ line ∈ scanned input, untouched portTo22 line = true)
    (hparse : parseEnvironmentAssignments input = .ok values)
    (hfull : maxDotEnvLines ≤ (lines input).length ∨
      maxDotEnvAssignments ≤ (entries (lines input)).length) :
    ∃ output, rewriteEditableConfiguration portTo22.set [] input = .ok output ∧
      ∀ path daemon, parseDotEnvData path output ≠ .ok daemon := by
  obtain ⟨output, hrewrite, hlines⟩ := lines_portRequest hparse (by decide +kernel) hport
  refine ⟨output, hrewrite, fun path daemon h => ?_⟩
  obtain ⟨-, hmax, hroom⟩ := within_of_parseDotEnvData h
  have hone : (entries [assignment (ofString "NODE_PORT") (ofString "22")]).length = 1 := by
    decide +kernel
  rw [hlines, entries_append, scanned, entries_map_dropCR, List.length_append, hone] at hroom
  rw [hlines, List.length_append, scanned, List.length_map, List.length_singleton] at hmax
  omega

/- As many assignments as the daemon reads. -/
def letterPairs : Runes :=
  let letters := ['A', 'B', 'C', 'D', 'E', 'F', 'G', 'H', 'I', 'J', 'K', 'L', 'M', 'N', 'O', 'P']
  letters.flatMap fun a => letters.flatMap fun b =>
    [.char a, .char b, .char '=', .char '1', newline]

/-- The installer reads 4096 blank lines and 256 assignments, and with one assignment more the
daemon reads neither file. -/
theorem full_files_unreadable : ∀ input ∈ [unlines (List.replicate maxDotEnvLines []), letterPairs],
    ∃ output, rewriteEditableConfiguration portTo22.set [] input = .ok output ∧
      ∀ path daemon, parseDotEnvData path output ≠ .ok daemon := by
  rw [List.forall_mem_cons, List.forall_mem_singleton]
  constructor
  · have hblank : ∀ line ∈ List.replicate maxDotEnvLines [], line = ([] : Runes) :=
      fun line hline => List.eq_of_mem_replicate hline
    have hlines := lines_unlines fun line hline => (hblank line hline).symm ▸ List.not_mem_nil
    have hentries : entries (List.replicate maxDotEnvLines []) = [] :=
      List.filterMap_eq_nil_iff.mpr fun line hline => (hblank line hline).symm ▸ rfl
    have hparse : parseEnvironmentAssignments (unlines (List.replicate maxDotEnvLines [])) =
        .ok fun _ => none := by
      rw [parseEnvironmentAssignments_ok_iff, hlines, hentries]
      refine ⟨fun line hline => ?_, fun line hline => ?_, List.nodup_nil, holds_nil⟩ <;>
        rw [hblank line hline] <;> decide
    refine full_unreadable (fun line hline => ?_) hparse (.inl ?_)
    · rw [scanned, hlines, List.map_replicate] at hline
      rw [List.eq_of_mem_replicate hline]
      decide
    · rw [hlines, List.length_replicate]
  · have hparse : (parseEnvironmentAssignments letterPairs).toOption.isSome = true := by
      decide +kernel
    cases hvalues : parseEnvironmentAssignments letterPairs with
    | error e =>
      rw [hvalues] at hparse
      cases hparse
    | ok values => exact full_unreadable (by decide +kernel) hvalues (.inr (by decide +kernel))

end RemnanodeLite.Rnlctl.Environment
