import JigLedger.Package.Content
import JigLedger.Proofs.Wire.Received

/-!
# Package ids identify content

What the id of a package is the digest of says exactly which entries the package has, however they
are ordered, and which text stands under which name. So no byte can move from an entry to a name, or
from a name to a text, and leave the digested bytes as they are.
-/

namespace JigLedger

/-! ### Sources as maps -/

namespace Sources

variable {s t : Sources} {name body : String} {files : List (String × String)}

/-- A text is found under a name exactly if there is a file with this name and this text. -/
theorem get?_eq_some_iff : s.get? name = some body ↔ (name, body) ∈ s.files := by
  simp only [get?, Option.map_eq_some_iff]
  constructor
  case mp =>
    rintro ⟨⟨name', body'⟩, found, rfl⟩
    have here : name' = name := by simpa using List.find?_some found
    exact here ▸ List.mem_of_find?_eq_some found
  case mpr =>
    intro mem
    rcases found : s.files.find? (·.1 = name) with _ | f
    · exact absurd (decide_eq_true rfl) (List.find?_eq_none.1 found _ mem)
    · have same : f.1 = name := by simpa using List.find?_some found
      have only : f = (name, body) :=
        List.inj_on_of_nodup_map s.nodup_names (List.mem_of_find?_eq_some found) mem same
      exact ⟨f, found, congrArg Prod.snd only⟩

/-- Sources are what they have under each name. -/
theorem eq_iff_get? : s = t ↔ ∀ name, s.get? name = t.get? name := by
  refine ⟨fun same _ => same ▸ rfl, fun alike => ?_⟩
  have files (f : String × String) : f ∈ t.files ↔ f ∈ s.files := by
    rw [← get?_eq_some_iff, ← get?_eq_some_iff, alike]
  have perm : t.files.Perm s.files :=
    (List.perm_ext_iff_of_nodup t.nodup_names.of_map s.nodup_names.of_map).2 files
  exact (ofList_of_perm (.refl _)).symm.trans (ofList_of_perm perm)

end Sources

/-! ### Entries in order -/

namespace Package

variable {entries entries' : List String} {sources sources' : Sources} {bs bs' : Bytes}

/-- Entries in the order in which they are digested. -/
theorem sorted_eq_iff :
    entries.mergeSort (fun a b => decide (a ≤ b)) = entries'.mergeSort (fun a b => decide (a ≤ b)) ↔
      entries.Perm entries' := by
  constructor
  case mp =>
    intro same
    have sorted := List.mergeSort_perm entries fun a b => decide (a ≤ b)
    rw [same] at sorted
    exact sorted.symm.trans (List.mergeSort_perm _ _)
  case mpr =>
    intro perm
    have sorted (entries : List String) :
        (entries.mergeSort fun a b => decide (a ≤ b)).Pairwise fun a b => a ≤ b := by
      refine (List.pairwise_mergeSort ?_ ?_ entries).imp of_decide_eq_true
      · intro a b c hab hbc
        exact decide_eq_true (String.le_trans (of_decide_eq_true hab) (of_decide_eq_true hbc))
      · intro a b
        simpa using String.le_total a b
    refine List.Perm.eq_of_pairwise (fun a b _ _ => String.le_antisymm) (sorted _) (sorted _) ?_
    exact (List.mergeSort_perm _ _).trans (perm.trans (List.mergeSort_perm _ _).symm)

/-- Entries and sources can be written if their lengths are ones the format admits. -/
theorem exists_contentPayload : (∃ bs, contentPayload entries sources = .ok bs) ↔
    (entries.length ≤ Wire.maxLength ∧ ∀ e ∈ entries, (utf8 e).length ≤ Wire.maxLength) ∧
      sources.Fits := by
  have sorted := List.mergeSort_perm entries fun a b => decide (a ≤ b)
  refine Wire.Codec.exists_pair_write.trans (and_congr ?_ Wire.Codec.exists_sources_write)
  rw [Wire.Codec.exists_list_write, sorted.length_eq]
  simp only [sorted.mem_iff, Wire.Codec.exists_text_write]

/-- The order of entries makes no difference, and neither does that of files. -/
theorem contentId_reordered {files : List (String × String)} (perm : entries.Perm entries')
    (moved : sources.files.Perm files) :
    contentId entries' (.ofList files) = contentId entries sources := by
  rw [contentId, contentPayload, Sources.ofList_of_perm moved, ← sorted_eq_iff.2 perm]
  rfl

/-- The bytes that the ids of two packages are the digests of are the same if and only if the
packages have the same entries, in any order, and the same text under each name. In particular, the
id does not change when entries or files are put into another order. -/
theorem contentPayload_eq_iff (written : contentPayload entries sources = .ok bs)
    (written' : contentPayload entries' sources' = .ok bs') :
    (bs = bs' ↔ entries'.Perm entries ∧ ∀ name, sources'.get? name = sources.get? name) ∧
    ∀ reordered files, reordered.Perm entries → files.Perm sources.files →
      contentId reordered (.ofList files) = contentId entries sources := by
  constructor
  · rw [← Sources.eq_iff_get?, ← sorted_eq_iff]
    constructor
    · rintro rfl
      have same := Wire.Codec.faithful_contents.injective written' written
      exact ⟨congrArg Prod.fst same, congrArg Prod.snd same⟩
    · rintro ⟨sorted, rfl⟩
      rw [contentPayload, sorted] at written'
      exact Except.ok.inj (written.symm.trans written')
  · intro reordered files perm moved
    exact contentId_reordered perm.symm moved.symm

/-- A letter that moves from a text to a name changes the bytes, and another order of the entries
does not. -/
theorem contentPayload_eq_iff_shifted : ∃ bs reordered shifted,
    contentPayload ["ewe", "ram"] (.ofList [("ewe", "sheep")]) = .ok bs ∧
    contentPayload ["ram", "ewe"] (.ofList [("ewe", "sheep")]) = .ok reordered ∧
    contentPayload ["ewe", "ram"] (.ofList [("ewes", "heep")]) = .ok shifted ∧
    reordered = bs ∧ shifted ≠ bs := by
  have small : ∀ e ∈ ["ewe", "ram"], (utf8 e).length ≤ Wire.maxLength := by decide
  have written (file : String × String) (fits : (Sources.ofList [file]).Fits) :
      ∃ bs, contentPayload ["ewe", "ram"] (.ofList [file]) = .ok bs :=
    exists_contentPayload.2 ⟨⟨by decide, small⟩, fits⟩
  obtain ⟨bs, written₁⟩ := written ("ewe", "sheep") ⟨by decide, by decide⟩
  obtain ⟨reordered, written₂⟩ : ∃ bs,
      contentPayload ["ram", "ewe"] (.ofList [("ewe", "sheep")]) = .ok bs :=
    exists_contentPayload.2
      ⟨⟨by decide, fun e mem => small e (by simpa [or_comm] using mem)⟩, by decide, by decide⟩
  obtain ⟨shifted, written₃⟩ := written ("ewes", "heep") ⟨by decide, by decide⟩
  refine ⟨bs, reordered, shifted, written₁, written₂, written₃, ?_, fun same => ?_⟩
  · exact (contentPayload_eq_iff written₂ written₁).1.2 ⟨.swap .., fun _ => rfl⟩
  · have alike := ((contentPayload_eq_iff written₃ written₁).1.1 same).2 "ewe"
    exact absurd alike (by decide)

end Package

end JigLedger
