/-
# Where the configuration is

The path of the configuration is given on the command line, or else by the
environment. A path that is given but blank stands for the usual one.
-/
import OperationQueue.Text.Blank

namespace OperationQueue.Config

/-- The path of a configuration that is not given another. -/
def defaultPath : String := "Cloudpipe.toml"

/-- The path that a given one stands for, without blanks around it. -/
def ofGivenPath (given : String) : String :=
  if Blank.isBlankText given then defaultPath else Blank.trim given

/-- The path of the configuration. What the command line gives is decisive, even if
it is blank. -/
def resolvePath (chosen environment : Option String) : String :=
  ((chosen.or environment).map ofGivenPath).getD defaultPath

end OperationQueue.Config
