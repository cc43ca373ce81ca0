import DirectoryExchange.Directory.Change

/-!
# Changes in place

A directory is changed step by step: glue is put in on the way to a new entry before it is known
that no entry is there, and a subtree is taken out before it is put in elsewhere.  A step that fails
leaves behind whatever the steps before it have done; nothing is taken back.
-/

namespace DirectoryExchange

namespace AttributeBag

/-- Carries out modifications one after the other, up to the first that fails; the bag behind all
that was done, that of the failed one included. -/
def applyEach (b : AttributeBag) : List Modification → Except DirectoryError Unit × AttributeBag
  | [] => (.ok (), b)
  | m :: rest =>
    match b.apply m with
    | (.ok _, b) => b.applyEach rest
    | (.error e, b) => (.error e, b)

end AttributeBag

namespace Directory

/-- Steps that read and write a directory and may fail on the way. -/
abbrev Steps := ExceptT DirectoryError (StateM Directory)

/-- The outcome of steps that begin with the directory, and the directory behind them, also if they
have failed. -/
def runSteps {α : Type} (steps : Steps α) (d : Directory) : Except DirectoryError α × Directory :=
  (ExceptT.run steps).run d

/-- The step that changes the directory. -/
def edit (change : Directory → Directory) : Steps Unit := modifyThe Directory change

/-- Adds an entry.  The way to its place is paved, the place included, before it is looked whether
there is an entry. -/
def addInPlace (dn : String) (attributes : List Attribute) : Steps Unit := do
  let path ← entryPathOf dn
  let parent := path.dropLast
  let d ← get
  if (d.entryAt? parent).isNone && (Dn.beginnings parent).any fun p => (d.entryAt? p).isSome then
    throw ⟨.noSuchObject, s!"parent of {Quoted.quote dn} does not exist"⟩
  edit (pave · parent)
  edit (pave · path)
  let d ← get
  if (d.entryAt? path).isSome then
    throw ⟨.entryAlreadyExists, s!"{Quoted.quote dn} already exists"⟩
  edit (putEntry · path ⟨Blank.trim dn, .ofAttributes attributes⟩)

/-- Deletes an entry, with the whole subtree at its place. -/
def deleteInPlace (dn : String) : Steps Unit := do
  let path ← entryPathOf dn
  let d ← get
  if (d.entryAt? path).isNone then throw (noSuchObject dn)
  if d.nodes.toList.any fun (p, _) => isBelow p path then
    throw ⟨.notAllowedOnNonLeaf, s!"{Quoted.quote dn} has children"⟩
  edit (prune · path)

/-- Modifies an entry.  The modifications are carried out on a copy of its attributes, which becomes
those of the entry behind the last one. -/
def modifyInPlace (dn : String) (modifications : List Modification) : Steps Unit := do
  let path ← pathOf dn
  let d ← get
  match d.entryAt? path with
  | none => throw (noSuchObject dn)
  | some held =>
    match held.attributes.applyEach modifications with
    | (.error e, _) => throw e
    | (.ok _, attributes) =>
      edit (putEntry · path { held with attributes })

/-- Renames an entry.  Its subtree is taken out, given its new names, and put in at the new place,
the way to which is paved. -/
def renameInPlace (dn : String) (rename : Rename) : Steps Unit := do
  let path ← entryPathOf dn
  let d ← get
  match d.entryAt? path, Dn.parseRdn? rename.newRdn with
  | none, _ => throw (noSuchObject dn)
  | some _, none => throw (invalidDn rename.newRdn)
  | some held, some newRdn => do
    let (parentPath, parentDn) ← newParent d dn path rename
    let newPath := parentPath ++ [Dn.Rdn.key newRdn]
    if newPath ≠ path ∧ (d.entryAt? newPath).isSome then
      throw ⟨.entryAlreadyExists, s!"{Quoted.quote rename.newRdn} already exists"⟩
    match (Dn.parse? dn).bind List.head? with
    | none => throw (invalidDn dn)
    | some oldRdn => do
      let subtree := d.subtreeAt path
      edit (prune · path)
      let kept :=
        if rename.deleteOldRdn then removeRdnValues held.attributes oldRdn else held.attributes
      let top : StoredEntry := ⟨joinDn rename.newRdn parentDn, addRdnValues kept newRdn⟩
      edit (pave · parentPath)
      edit (graft · newPath (subtree.rebase top))

/-- Carries out a change in place. -/
def applyInPlace : ChangeRecord → Steps Unit
  | .add entry => addInPlace entry.dn entry.attributes
  | .delete dn _ => deleteInPlace dn
  | .modify dn modifications _ _ => modifyInPlace dn modifications
  | .rename dn rename _ => renameInPlace dn rename

end Directory

end DirectoryExchange
