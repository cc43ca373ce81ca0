import DirectoryExchange.Connection
import DirectoryExchange.Directory.Basic

/-!
# Changes to a directory

A change is carried out as a whole or not at all.  An entry can be added below an entry or where no
entry is above it, deleted where there is nothing below it, modified, and renamed with all that is
below it.
-/

namespace DirectoryExchange.Directory

/-! ### Nodes -/

/-- The directory with glue on the way to the path, wherever there was nothing. -/
def pave (d : Directory) (path : Dn.Path) : Directory := ⟨d.nodes.pave path, d.tree.pave path⟩

/-- The directory with an entry at the path, the way to which is paved. -/
def putEntry (d : Directory) (path : Dn.Path) (held : StoredEntry) : Directory :=
  ⟨d.nodes.put path held, d.tree.put path held⟩

/-- The directory without the path and all that is below it. -/
def prune (d : Directory) (path : Dn.Path) : Directory := ⟨d.nodes.prune path, d.tree.prune path⟩

/-- The subtree at the path: a directory the root of which is what was at the path. -/
def subtreeAt (d : Directory) (path : Dn.Path) : Directory :=
  ⟨d.nodes.subtreeAt path, d.tree.subtreeAt path⟩

/-- The directory with a subtree put at the path, the way to which is paved.  What was below the
path stays, except where the subtree has a child of the same key. -/
def graft (d : Directory) (path : Dn.Path) (subtree : Directory) : Directory :=
  ⟨d.nodes.graft path subtree.nodes, d.tree.graft path subtree.tree⟩

/-- The directory with what is at each node changed, in a way that may depend on the path. -/
def mapNodes (d : Directory) (f : Dn.Path → Option StoredEntry → Option StoredEntry) : Directory :=
  ⟨d.nodes.mapValues f, d.tree.mapValues f⟩

/-! ### Adding, deleting and modifying -/

/-- Adds an entry.  Its parent has to be there, unless nothing above it is. -/
def add (d : Directory) (dn : String) (attributes : List Attribute) :
    Except DirectoryError Directory := do
  let path ← entryPathOf dn
  let parent := path.dropLast
  let orphaned := (d.entryAt? parent).isNone &&
    (Dn.beginnings parent).any fun p => (d.entryAt? p).isSome
  if orphaned then
    .error ⟨.noSuchObject, s!"parent of {Quoted.quote dn} does not exist"⟩
  else if (d.entryAt? path).isSome then
    .error ⟨.entryAlreadyExists, s!"{Quoted.quote dn} already exists"⟩
  else
    return d.putEntry path ⟨Blank.trim dn, .ofAttributes attributes⟩

/-- Deletes an entry that has nothing below it. -/
def delete (d : Directory) (dn : String) : Except DirectoryError Directory := do
  let path ← entryPathOf dn
  if (d.entryAt? path).isNone then .error (noSuchObject dn)
  else if d.nodes.toList.any fun (p, _) => isBelow p path then
    .error ⟨.notAllowedOnNonLeaf, s!"{Quoted.quote dn} has children"⟩
  else return d.prune path

/-- Modifies the attributes of an entry. -/
def modify (d : Directory) (dn : String) (steps : List Modification) :
    Except DirectoryError Directory := do
  let path ← pathOf dn
  match d.entryAt? path with
  | none => .error (noSuchObject dn)
  | some held => do
    let attributes ← held.attributes.applyAll steps
    return d.putEntry path { held with attributes }

/-! ### Renaming -/

/-- The bag without the values of a relative name, up to the case of ASCII letters.  If none of the
values of an attribute is the one that the name gives, the attribute goes with all of them. -/
def removeRdnValues (b : AttributeBag) (rdn : Dn.Rdn) : AttributeBag :=
  rdn.foldl
    (fun b ava =>
      match b.get? ava.type with
      | none => b
      | some values =>
        (b.delete ava.type (values.filter fun v => v.sameIgnoringCase ava.value)).2) b

/-- The bag with the values of a relative name, where it has them not yet up to the case of ASCII
letters. -/
def addRdnValues (b : AttributeBag) (rdn : Dn.Rdn) : AttributeBag :=
  rdn.foldl
    (fun b ava =>
      if (b.get? ava.type).any fun values => Filter.hasValue values ava.value then b
      else (b.add ava.type [ava.value]).2) b

/-- The new name of the entry at a place in the subtree, whose top gets the name `top`.  The place
is given from the entry upwards.  Below glue there are no new names. -/
def rebasedDn? (subtree : Directory) (top : String) : Dn.Path → Option String
  | [] => some top
  | key :: above =>
    match subtree.entryAt? (key :: above).reverse with
    | none => none
    | some held =>
      (rebasedDn? subtree top above).map fun dn => (Dn.splitFirst held.dn).1 ++ "," ++ dn

/-- The subtree whose top entry is `top`, with the names of the entries below it made new. -/
def rebase (subtree : Directory) (top : StoredEntry) : Directory :=
  subtree.mapNodes fun path node =>
    match path with
    | [] => some top
    | _ =>
      node.map fun held =>
        match rebasedDn? subtree top.dn path.reverse with
        | some dn => { held with dn }
        | none => held

/-- The directory with the subtree at the path taken to another place, where its top entry is
`top`. -/
def transplant (d : Directory) (path newPath : Dn.Path) (top : StoredEntry) : Directory :=
  (d.prune path).graft newPath ((d.subtreeAt path).rebase top)

/-- The path and name of the parent that an entry will have. -/
def newParent (d : Directory) (dn : String) (path : Dn.Path) (rename : Rename) :
    Except DirectoryError (Dn.Path × String) :=
  match rename.newSuperior with
  | none => .ok (path.dropLast, (Dn.splitFirst dn).2.getD "")
  | some superior => do
    let superiorPath ← pathOf superior
    if path.isPrefixOf superiorPath then
      .error ⟨.unwillingToPerform, s!"cannot move {Quoted.quote dn} below itself"⟩
    else if superiorPath.isEmpty || (d.entryAt? superiorPath).isSome then
      return (superiorPath, Blank.trim superior)
    else .error (noSuchObject superior)

/-- The name of an entry from its relative name and the name of its parent, which is empty for the
root. -/
def joinDn (rdn parent : String) : String :=
  if parent = "" then Blank.trim rdn else Blank.trim rdn ++ "," ++ parent

/-- Gives an entry another relative name, and possibly another parent. -/
def rename (d : Directory) (dn : String) (rename : Rename) : Except DirectoryError Directory := do
  let path ← entryPathOf dn
  match d.entryAt? path with
  | none => .error (noSuchObject dn)
  | some held =>
    match Dn.parseRdn? rename.newRdn with
    | none => .error (invalidDn rename.newRdn)
    | some newRdn => do
      let (parentPath, parentDn) ← newParent d dn path rename
      let newPath := parentPath ++ [Dn.Rdn.key newRdn]
      if newPath ≠ path ∧ (d.entryAt? newPath).isSome then
        .error ⟨.entryAlreadyExists, s!"{Quoted.quote rename.newRdn} already exists"⟩
      else
        let oldRdn := ((Dn.parse? dn).bind List.head?).getD []
        let kept :=
          if rename.deleteOldRdn then removeRdnValues held.attributes oldRdn else held.attributes
        let top : StoredEntry := ⟨joinDn rename.newRdn parentDn, addRdnValues kept newRdn⟩
        return d.transplant path newPath top

/-! ### Changes -/

/-- Carries out a change. -/
def apply (d : Directory) (record : ChangeRecord) : Except DirectoryError Directory :=
  match record with
  | .add entry => d.add entry.dn entry.attributes
  | .delete dn _ => d.delete dn
  | .modify dn steps _ _ => d.modify dn steps
  | .rename dn rename _ => d.rename dn rename

/-- A directory in memory as something that transfers can reach.  A change that fails leaves it as
it was. -/
def connection : Connection Directory where
  apply d record :=
    match d.apply record with
    | .ok d => (.ok (), d)
    | .error e => (.error (.directory e), d)
  search d request := (.ok (d.search request), d)

end DirectoryExchange.Directory
