import Variation.Files.Path

/-!
# The path of a file in a folder

A path is cut at its slashes, so a name without a slash that is joined to a folder is the last piece
of the path, whatever the folder is called: points and slashes in its name stand before that piece.
The name, and with it the extension, is got back from the path (`fileName?_join`).
-/

namespace Variation.FilePath

/-- A text that is a component by its own name. -/
def IsName (name : String) : Prop :=
  name.toList ∉ [[], ['.'], ['.', '.']] ∧ '/' ∉ name.toList

section Join

variable {folder name : String}

theorem ofPiece_of_isName (h : IsName name) : ofPiece name.toList = [.name name] := by
  have hdots := h.1
  unfold ofPiece
  split <;> simp_all

theorem ofFirst_of_isName (absolute : Bool) (h : IsName name) :
    ofFirst absolute name.toList = [.name name] := by
  have hdots := h.1
  have hpiece := ofPiece_of_isName h
  unfold ofFirst
  split <;> simp_all

theorem components_of_isName (h : IsName name) : components name = [.name name] := by
  rw [components, Text.pieces_of_not_mem h.2]
  simp [ofFirst_of_isName _ h]

/-- A name behind a slash is the last component. -/
theorem exists_components_append {path : String} {front : List Char}
    (hpath : path.toList = front ++ '/' :: name.toList) (h : IsName name) :
    ∃ before, components path = before ++ [.name name] := by
  obtain ⟨first, rest, hfront⟩ := List.exists_cons_of_ne_nil (Text.pieces_ne_nil '/' front)
  have hpieces : Text.pieces '/' path.toList = first :: (rest ++ [name.toList]) := by
    rw [hpath, Text.pieces_append, hfront, Text.pieces_of_not_mem h.2, List.cons_append]
  rw [components, hpieces]
  refine ⟨ofFirst (!(rest ++ [name.toList]).isEmpty) first ++ rest.flatMap ofPiece, ?_⟩
  simp [ofPiece_of_isName h]

theorem exists_toList_join (hfolder : folder ≠ "") (name : String) :
    ∃ front, (join folder name).toList = front ++ '/' :: name.toList := by
  have hempty : ¬ folder.isEmpty = true := by simpa using hfolder
  rw [join, if_neg hempty]
  by_cases hslash : folder.toList.getLast? = some '/'
  · obtain ⟨front, hfront⟩ := List.getLast?_eq_some_iff.mp hslash
    exact ⟨front, by simp [hfront]⟩
  · exact ⟨folder.toList, by simp [hslash]⟩

/-- The name of a file is got back from its path. -/
theorem fileName?_join (folder : String) (h : IsName name) :
    fileName? (join folder name) = some name := by
  by_cases hfolder : folder = ""
  · subst hfolder
    show fileName? name = some name
    rw [fileName?, components_of_isName h]
    rfl
  · obtain ⟨front, hpath⟩ := exists_toList_join hfolder name
    obtain ⟨before, hcomponents⟩ := exists_components_append hpath h
    rw [fileName?, hcomponents, List.getLast?_concat]

/-- Files of one folder have paths of their own. -/
theorem join_inj {other : String} (h : IsName name) (hother : IsName other) :
    join folder name = join folder other ↔ name = other := by
  refine ⟨fun heq => ?_, fun heq => heq ▸ rfl⟩
  have hname := fileName?_join folder h
  rw [heq, fileName?_join folder hother] at hname
  exact (Option.some.inj hname).symm

end Join

/-! ## Extensions -/

theorem extensionOf?_append {stem extension : List Char} (hstem : stem ≠ [])
    (h : '.' ∉ extension) : extensionOf? (stem ++ '.' :: extension) = some extension := by
  have hreverse : (stem ++ '.' :: extension).reverse
      = extension.reverse ++ '.' :: stem.reverse := by simp
  have hbefore : ∀ c ∈ extension.reverse, (c ≠ '.' : Bool) = true := by
    intro c member
    exact decide_eq_true fun e => h (e ▸ List.mem_reverse.mp member)
  obtain ⟨c, rest, hc⟩ := List.exists_cons_of_ne_nil (List.reverse_ne_nil_iff.mpr hstem)
  rw [extensionOf?, hreverse, hc]
  simp only [List.dropWhile_append_of_pos hbefore, List.takeWhile_append_of_pos hbefore]
  simp

/-- The extension of a path is that of the name, and no matter of the folder. -/
theorem extension?_join (folder : String) {name : String} (h : IsName name) :
    extension? (join folder name) = (extensionOf? name.toList).map String.ofList := by
  rw [extension?, fileName?_join folder h, Option.bind_some]

end Variation.FilePath
