set_option autoImplicit false

namespace IssueRelay

def version : String := "0.1.0"

end IssueRelay
