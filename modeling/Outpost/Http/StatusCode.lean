/-!
# Status codes
-/

namespace Outpost.Http

abbrev StatusCode := UInt16

def isSuccess (status : StatusCode) : Bool := 200 ≤ status && status < 300

end Outpost.Http
