/-
The consolidation of the scanner results into the one list the report prints.
Findings of one vulnerability are merged two at a time, in the order they come;
what the merges make of a group is stated for the group as a whole.
-/
import Workshop.Library.Groups
import Workshop.Security.Finding

namespace Workshop

namespace Security

structure SeverityCounts where
  critical : Nat
  high : Nat
  medium : Nat
  low : Nat
  informational : Nat
deriving DecidableEq, Repr

namespace SeverityCounts

/-- `emptyCounts` -/
def empty : SeverityCounts := ⟨0, 0, 0, 0, 0⟩

/-- One more of the severity. -/
def bump (counts : SeverityCounts) : Severity → SeverityCounts
  | .critical => { counts with critical := counts.critical + 1 }
  | .high => { counts with high := counts.high + 1 }
  | .medium => { counts with medium := counts.medium + 1 }
  | .low => { counts with low := counts.low + 1 }
  | .informational => { counts with informational := counts.informational + 1 }

def sum (counts : SeverityCounts) : Nat :=
  counts.critical + counts.high + counts.medium + counts.low + counts.informational

end SeverityCounts

structure OwaspRow where
  id : String
  title : String
  count : Nat
deriving DecidableEq, Repr

structure CategoryCounts where
  dependency : Nat
  sast : Nat
  dast : Nat
deriving DecidableEq, Repr

structure Consolidation where
  findings : List Finding
  counts : SeverityCounts
  total : Nat
  /-- Findings a second scanner confirmed. -/
  corroborated : Nat
  byCategory : CategoryCounts
  owaspRows : List OwaspRow
  notDetermined : Nat
  executedScanners : List ScannerResult
  skippedScanners : List ScannerResult
  failedScanners : List ScannerResult
deriving DecidableEq, Repr

/-- `OWASP_TOP_10`, each category with its title. -/
def owaspTop10 : List (String × String) :=
  [("A01", "Broken Access Control"), ("A02", "Cryptographic Failures"),
    ("A03", "Injection"), ("A04", "Insecure Design"),
    ("A05", "Security Misconfiguration"), ("A06", "Vulnerable and Outdated Components"),
    ("A07", "Identification and Authentication Failures"),
    ("A08", "Software and Data Integrity Failures"),
    ("A09", "Security Logging and Monitoring Failures"),
    ("A10", "Server-Side Request Forgery")]

/-- Keeps the higher severity and the union of every identifier; the rest is the
first finding's, or what it lacks. -/
def mergeFindings (first second : Finding) : Finding :=
  { first with
    severity := if isMoreSevere second.severity first.severity then second.severity
      else first.severity
    tools := uniqueSorted ((first.tools ++ second.tools).map some)
    cwe := uniqueSorted ((first.cwe ++ second.cwe).map some)
    cve := uniqueSorted ((first.cve ++ second.cve).map some)
    owasp := first.owasp.or second.owasp
    evidence := first.evidence.or second.evidence
    impact := first.impact.or second.impact
    recommendation := first.recommendation.or second.recommendation
    fixedIn := first.fixedIn.or second.fixedIn
    vulnerableVersions := first.vulnerableVersions.or second.vulnerableVersions
    confidence :=
      if first.confidence = .confirmed ∨ second.confidence = .confirmed then .confirmed
      else first.confidence }

/-- The map from a key to its finding is the list of its values in the order their
keys came: a finding keeps its key when it is merged. -/
def deduplicate (findings : List Finding) : List Finding :=
  findings.foldl (fun byKey finding =>
    match byKey.find? fun existing => existing.dedupeKey = finding.dedupeKey with
    | none => upsert Finding.dedupeKey finding byKey
    | some existing => upsert Finding.dedupeKey (mergeFindings existing finding) byKey) []

def countBySeverity (findings : List Finding) : SeverityCounts :=
  findings.foldl (fun counts finding => counts.bump finding.severity) .empty

def owaspBreakdown (findings : List Finding) : List OwaspRow :=
  owaspTop10.map fun (id, title) =>
    { id, title, count := (findings.filter fun finding => finding.owasp = some id).length }

/-- `VULN-` and the number with at least three digits. -/
def vulnerabilityId (number : Nat) : String :=
  "VULN-" ++ String.ofList ((toString number).toList.leftpad 3 '0')

/-- The findings in the order of the report, numbered from one. -/
def numbered (findings : List Finding) : List Finding :=
  (findings.zipIdx 1).map fun (finding, number) =>
    { finding with id := vulnerabilityId number }

def consolidate (collation : Collation) (results : List ScannerResult) : Consolidation :=
  let deduplicated := deduplicate (results.flatMap ScannerResult.findings)
  let findings := numbered (deduplicated.insertionSort fun a b =>
    compareSeverity collation a b ≤ 0)
  { findings
    counts := countBySeverity findings
    total := findings.length
    corroborated := (findings.filter fun finding => 1 < finding.tools.length).length
    byCategory := {
      dependency := (findings.filter fun finding => finding.category = .dependency).length
      sast := (findings.filter fun finding => finding.category = .sast).length
      dast := (findings.filter fun finding => finding.category = .dast).length }
    owaspRows := owaspBreakdown findings
    notDetermined := (findings.filter fun finding => finding.owasp = none).length
    executedScanners := results.filter fun result => result.status = .ok
    skippedScanners := results.filter fun result => result.status = .skipped
    failedScanners := results.filter fun result => result.status = .failed }

/-- The identifiers of a group: all of them, without the empty ones when there was
something to merge. -/
def UnionOf (names : Finding → List String) (group : List Finding) (merged : Finding) :
    Prop :=
  ∀ name, name ∈ names merged ↔
    (∃ finding ∈ group, name ∈ names finding) ∧ (group.length = 1 ∨ name ≠ "")

/-- The merge of a group: its key, the highest severity in it and every identifier. -/
structure MergeOf (group : List Finding) (merged : Finding) : Prop where
  keys : ∀ finding ∈ group, finding.dedupeKey = merged.dedupeKey
  reported : ∃ finding ∈ group, finding.severity = merged.severity
  highest : ∀ finding ∈ group, severityOrder merged.severity ≤ severityOrder finding.severity
  tools : UnionOf Finding.tools group merged
  cwe : UnionOf Finding.cwe group merged
  cve : UnionOf Finding.cve group merged
  alone : ∀ finding, group = [finding] → merged.tools = finding.tools
  distinct : group.length ≠ 1 → merged.tools.Nodup

section Merges

variable {group group' : List Finding} {merged merged' finding : Finding}
variable {findings : List Finding} {names : Finding → List String}

theorem unionOf_single : UnionOf names [finding] finding := by
  intro name
  simp

/-- A merge adds the identifiers of one more finding. -/
theorem UnionOf.concat (h : UnionOf names group merged) (hgroup : group ≠ [])
    (hnames : names merged' =
      uniqueSorted ((names merged ++ names finding).map some)) :
    UnionOf names (group ++ [finding]) merged' := by
  intro name
  have hlength : (group ++ [finding]).length ≠ 1 := by
    rw [List.length_append, List.length_singleton]
    have hpos := List.length_pos_of_ne_nil hgroup
    omega
  rw [hnames, mem_uniqueSorted, List.mem_map_of_injective (Option.some_injective _),
    List.mem_append, h name]
  constructor
  · rintro ⟨⟨⟨other, hother, hname⟩, -⟩ | hname, hne⟩
    · exact ⟨⟨other, List.mem_append_left _ hother, hname⟩, Or.inr hne⟩
    · exact ⟨⟨finding, List.mem_concat_self, hname⟩, Or.inr hne⟩
  · rintro ⟨⟨other, hother, hname⟩, hone | hne⟩
    · exact absurd hone hlength
    · refine ⟨?_, hne⟩
      rcases List.mem_append.mp hother with hold | hlast
      · exact Or.inl ⟨⟨other, hold, hname⟩, Or.inr hne⟩
      · rw [List.mem_singleton.mp hlast] at hname
        exact Or.inr hname

theorem mergeOf_single : MergeOf [finding] finding where
  keys := fun other hother => by rw [List.mem_singleton.mp hother]
  reported := ⟨finding, List.mem_singleton_self _, rfl⟩
  highest := fun other hother => by rw [List.mem_singleton.mp hother]
  tools := unionOf_single
  cwe := unionOf_single
  cve := unionOf_single
  alone := fun other hother => by rw [List.singleton_inj.mp hother]
  distinct := fun hlength => absurd rfl hlength

theorem MergeOf.merge (h : MergeOf group merged)
    (hkey : finding.dedupeKey = merged.dedupeKey) :
    MergeOf (group ++ [finding]) (mergeFindings merged finding) := by
  obtain ⟨source, hsource, hseverity⟩ := h.reported
  have hgroup : group ≠ [] := List.ne_nil_of_mem hsource
  have hpos := List.length_pos_of_ne_nil hgroup
  refine ⟨?_, ?_, ?_, h.tools.concat hgroup rfl, h.cwe.concat hgroup rfl,
    h.cve.concat hgroup rfl, ?_, ?_⟩
  · intro other hother
    rcases List.mem_append.mp hother with hold | hlast
    · exact h.keys other hold
    · rw [List.mem_singleton.mp hlast]
      exact hkey
  · simp only [mergeFindings]
    split
    · exact ⟨finding, List.mem_concat_self, rfl⟩
    · exact ⟨source, List.mem_append_left _ hsource, hseverity⟩
  · intro other hother
    simp only [mergeFindings]
    rcases List.mem_append.mp hother with hold | hlast
    · have hold' := h.highest other hold
      split
      · rename_i hmore
        have hless : severityOrder finding.severity < severityOrder merged.severity :=
          of_decide_eq_true hmore
        omega
      · exact hold'
    · rw [List.mem_singleton.mp hlast]
      split
      · exact Nat.le_refl _
      · rename_i hmore
        exact Nat.le_of_not_lt fun hless => hmore (decide_eq_true hless)
  · intro other hother
    have hlength := congrArg List.length hother
    rw [List.length_append, List.length_singleton, List.length_singleton] at hlength
    omega
  · exact fun _ => nodup_uniqueSorted _

/-- Whether a second tool confirmed it does not depend on the order of the group. -/
theorem MergeOf.tools_length (h : MergeOf group merged) (h' : MergeOf group' merged')
    (hperm : group.Perm group') : merged.tools.length = merged'.tools.length := by
  by_cases hone : group.length = 1
  · obtain ⟨finding, rfl⟩ := List.length_eq_one_iff.mp hone
    obtain rfl := List.singleton_perm.mp hperm
    rw [h.alone finding rfl, h'.alone finding rfl]
  · have hone' : group'.length ≠ 1 := by rwa [← hperm.length_eq]
    refine ((List.perm_ext_iff_of_nodup (h.distinct hone) (h'.distinct hone')).mpr
      fun name => ?_).length_eq
    rw [h.tools name, h'.tools name, hperm.length_eq]
    exact and_congr_left' (exists_congr fun other =>
      and_congr_left' hperm.mem_iff)

theorem MergeOf.severity_eq (h : MergeOf group merged) (h' : MergeOf group' merged')
    (hperm : group.Perm group') : merged.severity = merged'.severity := by
  obtain ⟨source, hsource, hseverity⟩ := h.reported
  obtain ⟨source', hsource', hseverity'⟩ := h'.reported
  have hle := h.highest source' (hperm.mem_iff.mpr hsource')
  have hge := h'.highest source (hperm.mem_iff.mp hsource)
  rw [hseverity'] at hle
  rw [hseverity] at hge
  exact severityOrder_inj (Nat.le_antisymm hle hge)

theorem deduplicate_eq (findings : List Finding) :
    deduplicate findings = collect Finding.dedupeKey mergeFindings findings := by
  have hstep : collectRow Finding.dedupeKey mergeFindings = fun byKey finding =>
      match byKey.find? fun existing => existing.dedupeKey = finding.dedupeKey with
      | none => upsert Finding.dedupeKey finding byKey
      | some existing =>
          upsert Finding.dedupeKey (mergeFindings existing finding) byKey := by
    funext byKey finding
    unfold collectRow
    cases byKey.find? fun existing => existing.dedupeKey = finding.dedupeKey <;> rfl
  rw [collect, hstep]
  rfl

/-- Every finding that is left is the merge of the findings of its key. -/
theorem mergeOf_deduplicate (h : merged ∈ deduplicate findings) :
    MergeOf (findings.filter fun finding => finding.dedupeKey = merged.dedupeKey) merged := by
  rw [deduplicate_eq] at h
  have hmerge := mergeAll_of_mem_collect
    (fun (entry row : Finding) _ => (rfl : (mergeFindings entry row).dedupeKey = _)) h
  have hgroup : ∀ group merged', mergeAll mergeFindings group = some merged' →
      (∀ finding ∈ group, finding.dedupeKey = merged.dedupeKey) → MergeOf group merged' := by
    intro group merged' hmerged
    refine mergeAll_induction
      (P := fun group merged' => (∀ finding ∈ group,
        finding.dedupeKey = merged.dedupeKey) → MergeOf group merged')
      (fun finding _ => mergeOf_single) ?_ hmerged
    intro group known finding ih hkeys
    have hknown := ih fun other hother => hkeys other (List.mem_append_left _ hother)
    obtain ⟨source, hsource, -⟩ := hknown.reported
    refine hknown.merge ?_
    rw [hkeys finding List.mem_concat_self, ← hknown.keys source hsource]
    exact (hkeys source (List.mem_append_left _ hsource)).symm
  exact hgroup _ _ hmerge fun finding hfinding => of_decide_eq_true (List.mem_filter.mp hfinding).2

/-- What the counts and the corroboration read of a finding. -/
def digest (finding : Finding) : String × Severity × Bool :=
  (finding.dedupeKey, finding.severity, decide (1 < finding.tools.length))

theorem nodup_deduplicate (findings : List Finding) :
    ((deduplicate findings).map Finding.dedupeKey).Nodup := by
  rw [deduplicate_eq]
  exact nodup_collect

theorem exists_merged (h : finding ∈ findings) :
    ∃ merged ∈ deduplicate findings, merged.dedupeKey = finding.dedupeKey := by
  rw [deduplicate_eq]
  exact exists_entry
    (fun (entry row : Finding) _ => (rfl : (mergeFindings entry row).dedupeKey = _)) h

/-- The order of the findings does not change what is counted of the merged ones. -/
theorem mem_digest_of_perm {findings' : List Finding} (hperm : findings.Perm findings')
    (h : merged ∈ deduplicate findings) :
    ∃ merged' ∈ deduplicate findings', digest merged' = digest merged := by
  have hmerge := mergeOf_deduplicate h
  obtain ⟨source, hsource, -⟩ := hmerge.reported
  obtain ⟨hmem, hkey⟩ := List.mem_filter.mp hsource
  obtain ⟨merged', hmerged', hkey'⟩ := exists_merged (hperm.mem_iff.mp hmem)
  have hsame : merged'.dedupeKey = merged.dedupeKey := hkey'.trans (of_decide_eq_true hkey)
  have hmerge' := mergeOf_deduplicate hmerged'
  rw [hsame] at hmerge'
  have hgroups := hperm.filter fun finding =>
    decide (finding.dedupeKey = merged.dedupeKey)
  refine ⟨merged', hmerged', ?_⟩
  rw [digest, digest, hsame, hmerge'.severity_eq hmerge hgroups.symm,
    hmerge'.tools_length hmerge hgroups.symm]

theorem digests_perm {findings' : List Finding} (hperm : findings.Perm findings') :
    ((deduplicate findings).map digest).Perm ((deduplicate findings').map digest) := by
  have hnodup : ∀ findings, ((deduplicate findings).map digest).Nodup := by
    intro findings
    refine List.Nodup.of_map Prod.fst ?_
    rw [List.map_map]
    exact nodup_deduplicate findings
  refine (List.perm_ext_iff_of_nodup (hnodup findings) (hnodup findings')).mpr ?_
  intro entry
  rw [List.mem_map, List.mem_map]
  constructor
  · rintro ⟨merged, hmerged, rfl⟩
    exact mem_digest_of_perm hperm hmerged
  · rintro ⟨merged, hmerged, rfl⟩
    exact mem_digest_of_perm hperm.symm hmerged

end Merges

section Counts

variable {counts : SeverityCounts} {findings : List Finding}

theorem SeverityCounts.bump_comm (counts : SeverityCounts) (a b : Severity) :
    (counts.bump a).bump b = (counts.bump b).bump a := by
  cases a <;> cases b <;> rfl

theorem SeverityCounts.sum_bump (counts : SeverityCounts) (severity : Severity) :
    (counts.bump severity).sum = counts.sum + 1 := by
  cases severity <;> simp only [SeverityCounts.bump, SeverityCounts.sum] <;> omega

theorem countBySeverity_eq (findings : List Finding) :
    countBySeverity findings =
      (findings.map Finding.severity).foldl SeverityCounts.bump .empty := by
  rw [List.foldl_map]
  rfl

theorem sum_countBySeverity (findings : List Finding) :
    (countBySeverity findings).sum = findings.length := by
  have hsum : ∀ (l : List Finding) (counts : SeverityCounts),
      (l.foldl (fun counts finding => counts.bump finding.severity) counts).sum =
        counts.sum + l.length := by
    intro l
    induction l with
    | nil => exact fun _ => rfl
    | cons finding l ih =>
        intro counts
        rw [List.foldl_cons, ih, counts.sum_bump, List.length_cons]
        omega
  rw [countBySeverity, hsum]
  exact Nat.zero_add _

/-- What does not depend on the number of a finding is the same before and after the
numbering. -/
theorem map_numbered {β : Type} (read : Finding → β)
    (hread : ∀ finding id, read { finding with id } = read finding) :
    (numbered findings).map read = findings.map read := by
  have hpair : read ∘ (fun entry : Finding × Nat =>
      { entry.1 with id := vulnerabilityId entry.2 }) = read ∘ Prod.fst := by
    funext entry
    exact hread entry.1 _
  rw [numbered, List.map_map, hpair, ← List.map_map, List.zipIdx_map_fst]

theorem ids_numbered : (numbered findings).map Finding.id =
    (List.range' 1 findings.length).map vulnerabilityId := by
  rw [numbered, List.map_map, ← List.zipIdx_map_snd 1 findings, List.map_map]
  rfl

theorem mem_numbered {finding : Finding} (h : finding ∈ numbered findings) :
    ∃ found ∈ findings, ∃ id, finding = { found with id } := by
  obtain ⟨entry, hentry, rfl⟩ := List.mem_map.mp h
  have hmem : entry.1 ∈ (findings.zipIdx 1).map Prod.fst := List.mem_map_of_mem hentry
  rw [List.zipIdx_map_fst] at hmem
  exact ⟨entry.1, hmem, _, rfl⟩

end Counts

/-- The same results in another order, with the findings of each in another order. -/
def Reordered (results results' : List ScannerResult) : Prop :=
  ∃ middle, results.Perm middle ∧
    List.Forall₂ (fun result result' => ∃ findings, result.findings.Perm findings ∧
      result' = { result with findings }) middle results'

/-- The findings the scanners reported. -/
def reported (results : List ScannerResult) : List Finding :=
  results.flatMap ScannerResult.findings

/-- What the consolidation keeps of the results: one finding a key, which is the
merge of what was reported for it, from most to least severe and numbered. -/
structure Consolidates (results : List ScannerResult) (consolidation : Consolidation) :
    Prop where
  complete : ∀ finding ∈ reported results,
    ∃ merged ∈ consolidation.findings, merged.dedupeKey = finding.dedupeKey
  once : (consolidation.findings.map Finding.dedupeKey).Nodup
  merged : ∀ merged ∈ consolidation.findings,
    MergeOf ((reported results).filter fun finding =>
      finding.dedupeKey = merged.dedupeKey) merged
  ordered : consolidation.findings.Pairwise fun earlier later =>
    severityOrder earlier.severity ≤ severityOrder later.severity
  numbered : consolidation.findings.map Finding.id =
    (List.range' 1 consolidation.total).map vulnerabilityId
  total : consolidation.total = consolidation.findings.length
  counted : consolidation.counts.sum = consolidation.total

section Consolidations

variable {collation : Collation} {results results' : List ScannerResult}

theorem Reordered.reported_perm (h : Reordered results results') :
    (reported results).Perm (reported results') := by
  obtain ⟨middle, hperm, hinner⟩ := h
  refine (hperm.flatMap_right ScannerResult.findings).trans ?_
  clear hperm
  induction hinner with
  | nil => exact List.Perm.refl _
  | cons hresult _ ih =>
      obtain ⟨findings, hfindings, rfl⟩ := hresult
      exact hfindings.append ih

/-- The findings before they are numbered. -/
def inOrder (collation : Collation) (results : List ScannerResult) : List Finding :=
  (deduplicate (reported results)).insertionSort fun a b =>
    compareSeverity collation a b ≤ 0

theorem inOrder_perm :
    (inOrder collation results).Perm (deduplicate (reported results)) :=
  List.perm_insertionSort _ _

theorem inOrder_pairwise (collation : Collation) (results : List ScannerResult) :
    (inOrder collation results).Pairwise fun earlier later =>
      severityOrder earlier.severity ≤ severityOrder later.severity := by
  have htotal : Std.Total fun a b => compareSeverity collation a b ≤ 0 :=
    ⟨fun _ _ => compareSeverity_total⟩
  have htrans : IsTrans Finding fun a b => compareSeverity collation a b ≤ 0 :=
    ⟨fun _ _ _ => compareSeverity_trans⟩
  refine (List.pairwise_insertionSort (fun a b => compareSeverity collation a b ≤ 0)
    (deduplicate (reported results))).imp fun hle => ?_
  rcases compareSeverity_le_iff.mp hle with hless | ⟨hsame, -⟩
  · exact Nat.le_of_lt hless
  · exact Nat.le_of_eq hsame

theorem consolidates (collation : Collation) (results : List ScannerResult) :
    Consolidates results (consolidate collation results) where
  complete := by
    intro finding hfinding
    obtain ⟨merged, hmerged, hkey⟩ := exists_merged hfinding
    have hmem : merged.dedupeKey ∈
        (numbered (inOrder collation results)).map Finding.dedupeKey := by
      rw [map_numbered _ fun _ _ => rfl]
      exact List.mem_map_of_mem (inOrder_perm.mem_iff.mpr hmerged)
    obtain ⟨shown, hshown, hsame⟩ := List.mem_map.mp hmem
    exact ⟨shown, hshown, hsame.trans hkey⟩
  once := by
    change ((numbered (inOrder collation results)).map Finding.dedupeKey).Nodup
    rw [map_numbered _ fun _ _ => rfl]
    exact (inOrder_perm.map _).nodup_iff.mpr (nodup_deduplicate _)
  merged := by
    intro merged hmerged
    obtain ⟨found, hfound, id, rfl⟩ := mem_numbered hmerged
    have h := mergeOf_deduplicate (inOrder_perm.mem_iff.mp hfound)
    exact ⟨h.keys, h.reported, h.highest, h.tools, h.cwe, h.cve, h.alone, h.distinct⟩
  ordered := by
    have hsorted := List.pairwise_map.mpr (inOrder_pairwise collation results)
    rw [← map_numbered (fun finding => severityOrder finding.severity)
      fun _ _ => rfl] at hsorted
    exact List.pairwise_map.mp hsorted
  numbered := by
    change (numbered (inOrder collation results)).map Finding.id =
      (List.range' 1 (numbered (inOrder collation results)).length).map vulnerabilityId
    rw [ids_numbered]
    simp [numbered]
  total := rfl
  counted := sum_countBySeverity _

theorem counts_eq_of_digests {findings findings' : List Finding}
    (h : (findings.map digest).Perm (findings'.map digest)) :
    countBySeverity findings = countBySeverity findings' ∧
      findings.length = findings'.length ∧
      (findings.filter fun finding => 1 < finding.tools.length).length =
        (findings'.filter fun finding => 1 < finding.tools.length).length := by
  refine ⟨?_, ?_, ?_⟩
  · have hseverities := h.map fun entry => entry.2.1
    rw [List.map_map, List.map_map] at hseverities
    rw [countBySeverity_eq, countBySeverity_eq]
    exact hseverities.foldl_eq' (fun a _ b _ counts => counts.bump_comm a b) _
  · simpa using h.length_eq
  · have hcount : ∀ l : List Finding,
        (l.filter fun finding => 1 < finding.tools.length).length =
          ((l.map digest).filter fun entry => entry.2.2).length := by
      intro l
      rw [List.filter_map, List.length_map]
      rfl
    rw [hcount, hcount, (h.filter _).length_eq]

/-- In whatever order the scanners report, the consolidation keeps one finding a key,
loses nothing that was reported for it but the empty identifiers of merged findings,
and counts the same. -/
theorem consolidation_order_independent (collation : Collation)
    (results : List ScannerResult) :
    Consolidates results (consolidate collation results) ∧
      ∀ results', Reordered results results' →
        (consolidate collation results').counts = (consolidate collation results).counts ∧
          (consolidate collation results').total = (consolidate collation results).total ∧
          (consolidate collation results').corroborated =
            (consolidate collation results).corroborated := by
  refine ⟨consolidates collation results, fun results' hreordered => ?_⟩
  refine counts_eq_of_digests ?_
  change ((numbered (inOrder collation results')).map digest).Perm
    ((numbered (inOrder collation results)).map digest)
  rw [map_numbered digest fun _ _ => rfl, map_numbered digest fun _ _ => rfl]
  refine (inOrder_perm.map digest).trans ?_
  refine (digests_perm hreordered.reported_perm.symm).trans ?_
  exact (inOrder_perm.map digest).symm

end Consolidations

namespace BlankWitness

/-- The comparison of a locale that orders by code units. -/
def byCodeUnits : Collation where
  localeCompare := fun a b => if codeUnits a ≤ codeUnits b then 0 else 1
  total := by
    intro a b
    rcases le_total (codeUnits a) (codeUnits b) with hle | hle
    · exact Or.inl (by rw [if_pos hle])
    · exact Or.inr (by rw [if_pos hle])
  trans := by
    intro a b c hab hbc
    by_cases hle : codeUnits a ≤ codeUnits b
    · by_cases hle' : codeUnits b ≤ codeUnits c
      · rw [if_pos (hle.trans hle')]
      · rw [if_neg hle'] at hbc
        exact absurd hbc (by decide)
    · rw [if_neg hle] at hab
      exact absurd hab (by decide)

/-- A finding of one tool with an empty CWE. -/
def blankCwe (tool : String) : Finding where
  id := ""
  title := "a finding"
  severity := .high
  tools := [tool]
  category := .sast
  owasp := none
  cwe := [""]
  cve := []
  description := "description"
  evidence := none
  impact := none
  recommendation := none
  location := none
  confidence := .potential
  packageName := none
  vulnerableVersions := none
  fixedIn := none
  httpMethod := none
  endpoint := none
  dedupeKey := "key"

def results : List ScannerResult :=
  [⟨"first", .ok, none, [blankCwe "first"], 10, none⟩,
    ⟨"second", .ok, none, [blankCwe "second"], 10, none⟩]

/-- Every finding names one tool, and what was reported as a CWE is lost. -/
theorem blank_identifiers_dropped :
    (∀ finding ∈ reported results, finding.tools.length = 1) ∧
      ¬ ∀ merged ∈ (consolidate byCodeUnits results).findings, ∀ name,
        name ∈ merged.cwe ↔ ∃ finding ∈ reported results,
          finding.dedupeKey = merged.dedupeKey ∧ name ∈ finding.cwe := by
  refine ⟨by decide +kernel, fun hunion => ?_⟩
  have hlost : ∃ merged ∈ (consolidate byCodeUnits results).findings,
      "" ∉ merged.cwe ∧ ∃ finding ∈ reported results,
        finding.dedupeKey = merged.dedupeKey ∧ "" ∈ finding.cwe := by
    decide +kernel
  obtain ⟨merged, hmerged, hnone, hreported⟩ := hlost
  exact hnone ((hunion merged hmerged "").mpr hreported)

/-- Two scanners in either order. -/
theorem consolidation_order_independent_blank :
    Consolidates results (consolidate byCodeUnits results) ∧
      (consolidate byCodeUnits results.reverse).corroborated = 1 := by
  have hreordered : Reordered results results.reverse := by
    refine ⟨results.reverse, (List.reverse_perm results).symm, ?_⟩
    exact List.forall₂_same.mpr fun result _ => ⟨_, List.Perm.refl _, rfl⟩
  obtain ⟨hexact, hsame⟩ := consolidation_order_independent byCodeUnits results
  obtain ⟨-, -, hcorroborated⟩ := hsame results.reverse hreordered
  refine ⟨hexact, hcorroborated.trans ?_⟩
  decide +kernel

end BlankWitness

end Security

end Workshop
