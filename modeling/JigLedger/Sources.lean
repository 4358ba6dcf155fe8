import JigLedger.Wire.Codec

/-!
# Sources

The files a package is built from: texts under names, each name once. The files are kept in the
order of their names, so that equal contents are equal values.
-/

namespace JigLedger

/-- Files in increasing order of their names. -/
structure Sources where
  files : List (String × String)
  increasing : files.Pairwise fun a b => a.1 < b.1
deriving DecidableEq, Repr

namespace Sources

/-- No files. -/
def empty : Sources := ⟨[], .nil⟩

instance : Inhabited Sources := ⟨empty⟩

/-- The list with a file put at its place, instead of one of the same name. -/
def insertFile (name body : String) : List (String × String) → List (String × String)
  | [] => [(name, body)]
  | f :: rest =>
    if name < f.1 then (name, body) :: f :: rest
    else if name = f.1 then (name, body) :: rest
    else f :: insertFile name body rest

theorem mem_insertFile {name body : String} {files : List (String × String)}
    {f : String × String} (h : f ∈ insertFile name body files) :
    f = (name, body) ∨ f ∈ files := by
  induction files with
  | nil => simpa [insertFile] using h
  | cons g rest ih =>
    simp only [insertFile] at h
    split at h
    · simpa using h
    · split at h
      · simp only [List.mem_cons] at h ⊢
        exact h.imp_right .inr
      · simp only [List.mem_cons] at h ⊢
        rcases h with h | h
        · exact .inr (.inl h)
        · exact (ih h).imp_right .inr

theorem pairwise_insertFile {name body : String} {files : List (String × String)}
    (h : files.Pairwise fun a b => a.1 < b.1) :
    (insertFile name body files).Pairwise fun a b => a.1 < b.1 := by
  induction files with
  | nil => simp [insertFile]
  | cons g rest ih =>
    rw [List.pairwise_cons] at h
    simp only [insertFile]
    split
    · rename_i hlt
      refine List.pairwise_cons.2 ⟨?_, List.pairwise_cons.2 h⟩
      intro f hf
      rcases List.mem_cons.1 hf with rfl | hf
      · exact hlt
      · exact String.lt_trans hlt (h.1 f hf)
    · rename_i hlt
      split
      · rename_i heq
        subst heq
        exact List.pairwise_cons.2 h
      · rename_i hne
        refine List.pairwise_cons.2 ⟨?_, ih h.2⟩
        intro f hf
        rcases mem_insertFile hf with rfl | hf
        · exact Decidable.byContradiction fun hn =>
            hne (String.le_antisymm (String.not_lt.1 hn) (String.not_lt.1 hlt))
        · exact h.1 f hf

/-- The files with one more, which takes the place of a file of the same name. -/
def insert (s : Sources) (name body : String) : Sources :=
  ⟨insertFile name body s.files, pairwise_insertFile s.increasing⟩

/-- The given files; of several with one name the last one counts. -/
def ofList (files : List (String × String)) : Sources :=
  files.foldl (fun s f => s.insert f.1 f.2) empty

/-- The file with the given name. -/
def get? (s : Sources) (name : String) : Option String :=
  (s.files.find? (·.1 = name)).map (·.2)

/-- The names of the files, in increasing order. -/
def names (s : Sources) : List String := s.files.map (·.1)

end Sources

namespace Wire.Codec

/-- Sources are a map from names to texts. -/
def sources : Codec Sources :=
  (map text text).iso Sources.ofList (·.files)

end Wire.Codec

end JigLedger
