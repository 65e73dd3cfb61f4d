import Vaylix.Lib.MakeDirectories

/-!
# Backup paths

A path is resolved under the backup directory. Parent components are refused; links are caught
by comparing canonical paths. A path that need not exist has its missing directories made
before it is compared, and an existing one may be the backup directory itself.
-/

namespace Vaylix

open FileTree

/-- A name without a zero byte, as the system calls take it. -/
def validFileName (name : String) : Bool := !name.toList.contains '\x00'

abbrev FileSystem := Tree validFileName

abbrev FilePath := Path String

/-- An existing path lies below the backup directory, and a new one has, or can be given, a
directory there, in which it is no link. -/
def Accepted (files : FileSystem) (base : List String) (candidate : FilePath) : Bool → Prop
  | true => ∃ canonical, files.resolve candidate = .ok canonical ∧ base <+: canonical ∧
      canonical ≠ base
  | false => ∃ parent canonical, candidate.parent? = some parent ∧
      (files.createDirAll parent).1 = .ok () ∧
      (files.createDirAll parent).2.resolve parent = .ok canonical ∧ base <+: canonical ∧
      ((files.createDirAll parent).2.entryAt candidate = .error .notFound ∨
        ∃ entry, (files.createDirAll parent).2.entryAt candidate = .ok entry ∧
          ∀ target, entry ≠ .link target)

section Candidates

end Candidates

section Confinement

variable {files : FileSystem} {base : List String}

variable {names : List String} {last : String} {ending : Ending}

variable {requested : String}

variable {made : FileSystem}

section Settled

variable (held : made.entry base ≠ none) (grows : files.Grows made)
include held

include grows

end Settled

end Confinement

section Samples

variable {files : FileSystem} {outcome : Except BackupPathError FilePath × FileSystem}

end Samples

end Vaylix
