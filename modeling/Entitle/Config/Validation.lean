import Entitle.Config.Basic
import Entitle.Config.Fault
import Entitle.Text.Blank

/-!
Which configurations can be used. The first defect in the order of the sections is told.
-/

namespace Entitle.Config

/-- A text of nothing but white space. -/
def isBlankText (s : String) : Bool :=
  s.toList.all Text.isBlank

/-- A URL of a scheme that requests can be sent with. -/
def isHttp (url : String) : Bool :=
  "http://".toList.isPrefixOf url.toList || "https://".toList.isPrefixOf url.toList

/-- The defect of the section on server and credentials. -/
def Api.defect? (a : Api) : Option Defect :=
  if isBlankText a.baseUrl then some .emptyBaseUrl
  else if !isHttp a.baseUrl then some (.notHttp a.baseUrl)
  else if a.timeoutSeconds = 0 then some .noTimeout
  else if a.apiKey.any isBlankText then some .blankApiKey
  else none

/-- The defect of the section on dispatch. -/
def dispatchDefect? (l : Flight.Limits) : Option Defect :=
  if l.maxConcurrent = 0 then some .noConcurrency
  else if l.longDelay < l.defaultDelay then some (.delaysInverted l.longDelay l.defaultDelay)
  else none

/-- The defect of the section on cache and state. -/
def Cache.defect? (c : Cache) : Option Defect :=
  if c.stateDir = some "" then some .emptyStateDir else none

/-- Accepts a configuration, or tells its first defect. -/
def validate (c : Config) : Except Defect Unit :=
  match (c.api.defect?.or (dispatchDefect? c.dispatch)).or c.cache.defect? with
  | some defect => .error defect
  | none => .ok ()

end Entitle.Config
